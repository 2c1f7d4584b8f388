import Mathlib.Data.List.TakeWhile
import MapRelay.Native.SumoRoads

/-!
# The ways that the ids of edges stand for

The import of OSM data names an edge after its way: `-` in front for the edge against the
direction of the way, `#` and a number behind it for a segment. `parseOsmWayid` takes the way back
out of the id. It does so by pieces, and a way with a `-` in its own name has several.
-/

namespace MapRelay.NS3

open ForStd

/-! ## The tokens of a string -/

/-- The first token, with the characters that have been read of it. -/
private theorem head?_tokenizeFrom (delimiters : List Char) (cs token : List Char) :
    (tokenizeFrom delimiters cs token).head? =
      let first := if token = [] then (cs.dropWhile (· ∈ delimiters)).takeWhile (· ∉ delimiters)
        else token.reverse ++ cs.takeWhile (· ∉ delimiters)
      if first = [] then none else some (String.ofList first) := by
  -- With an open token the first piece goes on with it
  induction cs generalizing token with
  | nil => cases token <;> simp [tokenizeFrom]
  | cons c cs ih =>
    by_cases hc : c ∈ delimiters
    -- A delimiter closes the token, if one is open
    case pos =>
      cases token with
      | nil => simp [tokenizeFrom, hc, ih]
      | cons t ts => simp [tokenizeFrom, hc]
    case neg =>
      rw [tokenizeFrom, if_neg hc, ih]
      cases token <;> simp [hc]

/-- The longest piece without delimiters that a string has first. -/
def firstPiece (delimiters : List Char) (cs : List Char) : List Char :=
  (cs.dropWhile (· ∈ delimiters)).takeWhile (· ∉ delimiters)

/-- The first token of a text. -/
private theorem head?_tokenize (str delimiters : String) :
    (tokenize str delimiters).head? =
      if firstPiece delimiters.toList str.toList = [] then none
      else some (String.ofList (firstPiece delimiters.toList str.toList)) := by
  simp [tokenize, head?_tokenizeFrom, firstPiece]

/-- A text without delimiters is its first piece. -/
private theorem firstPiece_of_disjoint {delimiters : List Char} {cs : List Char}
    (h : ∀ c ∈ cs, c ∉ delimiters) : firstPiece delimiters cs = cs := by
  have hdrop : cs.dropWhile (· ∈ delimiters) = cs := by
    cases cs with
    | nil => rfl
    | cons c cs => simp [h c List.mem_cons_self]
  rw [firstPiece, hdrop]
  exact List.takeWhile_eq_self_iff.mpr (by simpa using h)

/-- The first piece ends at the first delimiter. -/
private theorem firstPiece_append_delimiter {delimiters : List Char} {cs : List Char}
    (hne : cs ≠ [])
    (h : ∀ c ∈ cs, c ∉ delimiters) {d : Char} (hd : d ∈ delimiters) (rest : List Char) :
    firstPiece delimiters (cs ++ d :: rest) = cs := by
  obtain ⟨c, cs, rfl⟩ := List.exists_cons_of_ne_nil hne
  have hc : c ∉ delimiters := h c List.mem_cons_self
  rw [firstPiece, List.cons_append, List.dropWhile_cons_of_neg (by simpa using hc),
    ← List.cons_append, List.takeWhile_append_of_pos (by simpa using h)]
  simp [hd]

/-- A string without delimiters is its only token. -/
private theorem tokenizeFrom_of_disjoint {delimiters : List Char} {cs : List Char}
    (h : ∀ c ∈ cs, c ∉ delimiters) (token : List Char) (hne : token.reverse ++ cs ≠ []) :
    tokenizeFrom delimiters cs token = [String.ofList (token.reverse ++ cs)] := by
  induction cs generalizing token with
  | nil =>
    obtain ⟨t, ts, rfl⟩ := List.exists_cons_of_ne_nil (l := token) (by simpa using hne)
    simp [tokenizeFrom]
  | cons c cs ih =>
    rw [tokenizeFrom, if_neg (h c List.mem_cons_self),
      ih (fun x hx => h x (List.mem_cons_of_mem c hx)) (c :: token) (by simp)]
    simp

/-- No token has a delimiter in it. -/
private theorem tokenizeFrom_disjoint {delimiters : List Char} {cs token : List Char}
    -- The token under way is free of delimiters
    (htoken : ∀ c ∈ token, c ∉ delimiters) :
    ∀ t ∈ tokenizeFrom delimiters cs token, ∀ c ∈ t.toList, c ∉ delimiters := by
  induction cs generalizing token with
  | nil =>
    cases token with
    | nil => simp [tokenizeFrom]
    | cons t ts => simpa [tokenizeFrom, or_comm] using htoken
  | cons c cs ih =>
    intro t ht
    rw [tokenizeFrom] at ht
    split at ht
    case isTrue hc =>
      split at ht
      case isTrue => exact ih (by simp) t ht
      case isFalse =>
        rcases List.mem_cons.mp ht with rfl | ht
        · simpa using htoken
        · exact ih (by simp) t ht
    -- The character goes into the token
    case isFalse hc =>
      refine ih (fun x hx => ?_) t ht
      rcases List.mem_cons.mp hx with rfl | hx
      exacts [hc, htoken x hx]

/-- A text without delimiters is one token. -/
private theorem tokenize_of_disjoint {str delimiters : String} (hne : str ≠ "")
    (h : ∀ c ∈ str.toList, c ∉ delimiters.toList) : tokenize str delimiters = [str] := by
  rw [tokenize, tokenizeFrom_of_disjoint h [] (by simpa using hne)]
  simp

/-- Only a text of delimiters has no token. -/
private theorem tokenize_eq_nil_iff {str delimiters : String} :
    tokenize str delimiters = [] ↔ ∀ c ∈ str.toList, c ∈ delimiters.toList := by
  rw [← List.head?_eq_none_iff, head?_tokenize]
  suffices firstPiece delimiters.toList str.toList = [] ↔
      ∀ c ∈ str.toList, c ∈ delimiters.toList by simpa using this
  generalize delimiters.toList = ds
  induction str.toList with
  | nil => simp [firstPiece]
  | cons c cs ih =>
    by_cases hc : c ∈ ds
    · simpa [firstPiece, hc] using ih
    · simp [firstPiece, hc]

/-! ## The way in an id -/

/-- What `parseOsmWayid` does with its first token. -/
def wayOfToken (token : String) : Except Fault String :=
  let tokens1 := tokenize token "-"
  if tokens1.length = 1 then tokenAt tokens1 0 else tokenAt tokens1 1

/-- The way is cut out of the first piece before `#`. -/
private theorem parseOsmWayid_eq (id : String) :
    parseOsmWayid id =
      if firstPiece ['#'] id.toList = [] then .error .danglingDeref
      else wayOfToken (String.ofList (firstPiece ['#'] id.toList)) := by
  have hhead := head?_tokenize id "#"
  have hdelim : "#".toList = ['#'] := rfl
  rw [hdelim] at hhead
  rw [parseOsmWayid, tokenAt, ← List.head?_eq_getElem?, hhead]
  by_cases hnil : firstPiece ['#'] id.toList = []
  · rw [if_pos hnil, if_pos hnil]
    rfl
  · rw [if_neg hnil, if_neg hnil]
    simp only [bind, Except.bind, wayOfToken]

/-- The ids that the edges of a way can have. -/
inductive WayId (way : String) : String → Prop
  | forth : WayId way way
  | back : WayId way ("-" ++ way)
  | segment (k : String) : WayId way (way ++ "#" ++ k)
  | segmentBack (k : String) : WayId way ("-" ++ way ++ "#" ++ k)

/-- The names of ways that the ids can be told from. -/
structure IsWayName (way : String) : Prop where
  nonempty : way ≠ ""
  noHash : '#' ∉ way.toList
  noDash : way.toList.head? ≠ some '-'

/-- The first token of an id is the way, or the way behind a `-`. -/
theorem parseOsmWayid_of_wayId {way id : String} (hway : IsWayName way) (hid : WayId way id) :
    parseOsmWayid id = wayOfToken way := by
  have hne : way.toList ≠ [] := by simpa using hway.nonempty
  have hhash : ∀ c ∈ way.toList, c ∉ ['#'] := by
    rintro c hc hmem
    rw [List.mem_singleton.mp hmem] at hc
    exact hway.noHash hc
  -- A dash in front does not bring a hash
  have hback : ∀ c ∈ '-' :: way.toList, c ∉ ['#'] := by
    simpa using hhash
  -- The dash in front is skipped like any delimiter
  have hdash : wayOfToken (String.ofList ('-' :: way.toList)) = wayOfToken way := by
    have htokens : tokenize (String.ofList ('-' :: way.toList)) "-" = tokenize way "-" := by
      simp [tokenize, tokenizeFrom]
    rw [wayOfToken, wayOfToken, htokens]
  rw [parseOsmWayid_eq]
  -- The four ways of writing the id
  cases hid with
  | forth => rw [firstPiece_of_disjoint hhash, if_neg hne, String.ofList_toList]
  | back =>
    have hlist : ("-" ++ way).toList = '-' :: way.toList := by simp
    rw [hlist, firstPiece_of_disjoint hback, if_neg (by simp), hdash]
  | segment k =>
    have hlist : (way ++ "#" ++ k).toList = way.toList ++ '#' :: k.toList := by simp
    rw [hlist, firstPiece_append_delimiter hne hhash (by simp), if_neg hne, String.ofList_toList]
  | segmentBack k =>
    have hlist : ("-" ++ way ++ "#" ++ k).toList = '-' :: way.toList ++ '#' :: k.toList := by simp
    rw [hlist, firstPiece_append_delimiter (by simp) hback (by simp), if_neg (by simp), hdash]

/-- The token is the way itself exactly if there is nothing to cut at. -/
theorem wayOfToken_eq_self_iff {way : String} (hne : way ≠ "") :
    wayOfToken way = .ok way ↔ '-' ∉ way.toList := by
  constructor
  case mp =>
    intro h hdash
    -- The result is one of the tokens, which have no dash
    have hmem : way ∈ tokenize way "-" := by
      rw [wayOfToken] at h
      split at h
      all_goals
        rw [tokenAt] at h
        split at h
        case h_1 => cases h
        case h_2 token htoken =>
          cases h
          exact List.mem_of_getElem? htoken
    exact tokenizeFrom_disjoint (by simp) way hmem '-' hdash (by simp)
  case mpr =>
    intro hdash
    -- Without a dash the name is its only token
    have htokens : tokenize way "-" = [way] := tokenize_of_disjoint hne fun c hc hmem => by
      have hdelim : "-".toList = ['-'] := rfl
      rw [hdelim, List.mem_singleton] at hmem
      exact hdash (hmem ▸ hc)
    rw [wayOfToken, htokens]
    rfl

/-- There is a piece to return unless the token has nothing but `-` in it. -/
private theorem wayOfToken_ok_iff {token : String} :
    (∃ key, wayOfToken token = .ok key) ↔ ∃ c ∈ token.toList, c ≠ '-' := by
  -- Nothing but dashes leaves no token
  have hnil : tokenize token "-" = [] ↔ ∀ c ∈ token.toList, c = '-' := by
    rw [tokenize_eq_nil_iff]
    have hdelim : "-".toList = ['-'] := rfl
    simp [hdelim]
  have hsome : (∃ c ∈ token.toList, c ≠ '-') ↔ tokenize token "-" ≠ [] := by
    rw [Ne, hnil]
    push Not
    rfl
  rw [hsome, wayOfToken]
  match tokenize token "-" with
  | [] => simp [tokenAt]
  | [t] => simp [tokenAt]
  | t :: t' :: ts => simp [tokenAt]

/-- An id that has a way in it: before the first `#` behind something else stands more than
    `-`. -/
def HasWay (id : String) : Prop := ∃ c ∈ firstPiece ['#'] id.toList, c ≠ '-'

/-- A way is found exactly if the id has one. -/
private theorem parseOsmWayid_ok_iff (id : String) :
    (∃ key, parseOsmWayid id = .ok key) ↔ HasWay id := by
  rw [parseOsmWayid_eq, HasWay]
  split
  case isTrue hnil => simp [hnil]
  case isFalse hne => rw [wayOfToken_ok_iff, String.toList_ofList]

/-- What the import relies on for its ways and for all the ids that it may meet. -/
structure NormalForm (ways ids : Set String) : Prop where
  normal : ∀ way ∈ ways, ∀ id, WayId way id → parseOsmWayid id = .ok way
  sameWay : ∀ way ∈ ways, ∀ id id', WayId way id → WayId way id' →
    parseOsmWayid id = parseOsmWayid id'
  otherWay : ∀ way ∈ ways, ∀ way' ∈ ways, way ≠ way' → ∀ id id', WayId way id →
    WayId way' id' → parseOsmWayid id ≠ parseOsmWayid id'
  inBounds : ∀ id ∈ ids, ∃ key, parseOsmWayid id = .ok key

/-- The ids lead back to their ways if no way has a `-` inside, and the vectors are long enough
    for the ids with a way in them. -/
theorem parseOsmWayid_normalForm_iff (ways ids : Set String)
    (hways : ∀ way ∈ ways, IsWayName way) :
    NormalForm ways ids ↔ (∀ way ∈ ways, '-' ∉ way.toList) ∧ ∀ id ∈ ids, HasWay id := by
  -- Each id of a way gives the way just when the way has no dash
  have hnormal : ∀ way ∈ ways, ∀ id, WayId way id →
      (parseOsmWayid id = .ok way ↔ '-' ∉ way.toList) := by
    intro way hway id hid
    rw [parseOsmWayid_of_wayId (hways way hway) hid,
      wayOfToken_eq_self_iff (hways way hway).nonempty]
  constructor
  case mp =>
    intro h
    refine ⟨fun way hway => ?_, fun id hid => (parseOsmWayid_ok_iff id).mp (h.inBounds id hid)⟩
    exact (hnormal way hway way .forth).mp (h.normal way hway way .forth)
  case mpr =>
    rintro ⟨hdash, hhas⟩
    -- All ids give their way, so equal results come from equal ways
    have hok : ∀ way ∈ ways, ∀ id, WayId way id → parseOsmWayid id = .ok way :=
      fun way hway id hid => (hnormal way hway id hid).mpr (hdash way hway)
    refine ⟨hok, ?_, ?_, fun id hid => (parseOsmWayid_ok_iff id).mpr (hhas id hid)⟩
    · intro way hway id id' hid hid'
      rw [hok way hway id hid, hok way hway id' hid']
    · intro way hway way' hway' hne id id' hid hid' heq
      rw [hok way hway id hid, hok way' hway' id' hid'] at heq
      exact hne (Except.ok.inj heq)

/-- Two ways without a `-`, and all ids of a segment of a way. -/
theorem parseOsmWayid_normalForm_plain :
    (∀ way ∈ ({"53", "e7"} : Set String), IsWayName way) ∧
      NormalForm {"53", "e7"} {"-53#1", "e7"} := by
  have hways : ∀ way ∈ ({"53", "e7"} : Set String), IsWayName way := by
    rintro way (rfl | rfl)
    all_goals exact ⟨by decide, by decide, by decide⟩
  refine ⟨hways, (parseOsmWayid_normalForm_iff _ _ hways).mpr ⟨?_, ?_⟩⟩
  · rintro way (rfl | rfl)
    all_goals decide
  · rintro id (rfl | rfl)
    · exact ⟨'5', by decide, by decide⟩
    · exact ⟨'e', by decide, by decide⟩

/-- The ids of the net that the importer loads by default lose their way, the two directions of
    two different roads get one key, and an id without a way is read past its tokens. -/
theorem parseOsmWayid_defaultNet :
    IsWayName "edgeD-0-0" ∧ IsWayName "edgeL-0-0" ∧
      parseOsmWayid "edgeD-0-0" = .ok "0" ∧ parseOsmWayid "edgeL-0-0" = .ok "0" ∧
      parseOsmWayid "-" = .error .danglingDeref ∧
      ¬ (∀ ways ids : Set String, (∀ way ∈ ways, IsWayName way) → NormalForm ways ids) := by
  have hway : IsWayName "edgeD-0-0" := ⟨by decide, by decide, by decide⟩
  refine ⟨hway, ⟨by decide, by decide, by decide⟩, by rfl, by rfl, by rfl, fun h => ?_⟩
  have hnormal := (h {"edgeD-0-0"} ∅ (by simpa using hway)).normal "edgeD-0-0" rfl _ .forth
  exact absurd hnormal (by decide)

end MapRelay.NS3
