import MapRelay.ForStd.Intern
import MapRelay.Native.SumoRoads
import MapRelay.Spec.WayIds

/-!
# Which edges of an import get one road id

The numbers tell the strings apart as long as only one load meets strings that are new, and the
strings tell the roads apart as long as no way without a name shares its string with another.
-/

namespace MapRelay.NS3

open ForStd

/-! ## The map of the road ids -/

/-- The number of a string by its place among the strings. -/
def roadNumber (keys : List String) (k : String) : Int32 := Int32.ofNat (keys.idxOf k + 1)

/-- The map numbers the strings in the order in which they were met. -/
def Numbers (mapRoadid : List (String × Int32)) (keys : List String) : Prop :=
  ∀ k, mapRoadid.lookup k = if k ∈ keys then some (roadNumber keys k) else none

/-- The counter follows the map, or is not needed. -/
def CounterFits (ids : RoadIds) (keys new : List String) : Prop :=
  ids.kkk = Int32.ofNat (keys.length + 1) ∨ new ⊆ keys

/-- A new name leaves the numbers of the others. -/
private theorem roadNumber_add {keys : List String} {k x : String} (h : x ∈ keys) :
    roadNumber (Intern.add keys k) x = roadNumber keys x := by
  rw [roadNumber, Intern.idxOf_add h, roadNumber]

/-- Several new names leave the numbers of the others. -/
private theorem roadNumber_addAll {keys : List String} {x : String} (h : x ∈ keys)
    (ks : List String) :
    roadNumber (Intern.addAll keys ks) x = roadNumber keys x := by
  rw [roadNumber, Intern.idxOf_addAll h, roadNumber]

/-- Names have different numbers as long as an `int` can count them. -/
private theorem roadNumber_inj {keys : List String} (hlen : keys.length < 2 ^ 31 - 1) {x y : String}
    (hx : x ∈ keys) : roadNumber keys x = roadNumber keys y ↔ x = y := by
  have hint : ∀ k, (roadNumber keys k).toInt = ((keys.idxOf k + 1 : Nat) : Int) := fun k =>
    Int32.toInt_ofNat_of_lt (by have := List.idxOf_le_length (a := k) (l := keys); omega)
  rw [← Int32.toInt_inj, hint, hint, Int.ofNat_inj, Nat.add_right_cancel_iff, List.idxOf_inj hx]

/-- One string: its number, and the map and the counter behind it. -/
private theorem roadidInt_of_numbers {ids : RoadIds} {keys : List String} {k : String}
    {new : List String} (h : Numbers ids.mapRoadid keys) (hc : CounterFits ids keys (k :: new)) :
    (roadidInt ids k).1 = roadNumber (Intern.add keys k) k ∧
      Numbers (roadidInt ids k).2.mapRoadid (Intern.add keys k) ∧
      CounterFits (roadidInt ids k).2 (Intern.add keys k) new := by
  by_cases hk : k ∈ keys
  case pos =>
    -- The string has its number, the counter stays
    have hlookup : ids.mapRoadid.lookup k = some (roadNumber keys k) := by rw [h, if_pos hk]
    rw [Intern.add_of_mem hk, roadidInt, hlookup]
    exact ⟨rfl, h, hc.imp id fun hsub x hx => hsub (List.mem_cons_of_mem k hx)⟩
  case neg =>
    -- The counter is the number of a string that goes behind the others
    have hlookup : ids.mapRoadid.lookup k = none := by rw [h, if_neg hk]
    have hkkk : ids.kkk = Int32.ofNat (keys.length + 1) :=
      hc.resolve_right fun hsub => hk (hsub List.mem_cons_self)
    have hnumber : roadNumber (keys ++ [k]) k = ids.kkk := by
      rw [roadNumber, List.idxOf_append_of_notMem hk, List.idxOf_cons_self, Nat.add_zero, hkkk]
    rw [Intern.add_of_notMem hk, roadidInt, hlookup]
    refine ⟨hnumber.symm, fun x => ?_, .inl ?_⟩
    · show ((k, ids.kkk) :: ids.mapRoadid).lookup x = _
      rw [List.lookup_cons]
      split
      case h_1 hxk =>
        rw [beq_iff_eq] at hxk
        rw [hxk, if_pos (by simp), hnumber]
      case h_2 hxk =>
        have hne : x ≠ k := by simpa using hxk
        rw [h x]
        have hmem : x ∈ keys ++ [k] ↔ x ∈ keys := by simp [hne]
        simp only [hmem]
        split
        case isTrue hx => rw [← Intern.add_of_notMem hk, roadNumber_add hx]
        case isFalse => rfl
    · show ids.kkk + 1 = _
      rw [hkkk, List.length_append, List.length_singleton, Int32.ofNat_add (keys.length + 1)]
      rfl

/-! ## Edges and their roads -/

/-- A road of the map. -/
inductive Road where
  | named (name : String)
  | way (wayid : String)
  deriving DecidableEq

/-- What is known of an edge: its way, and the name that the OSM map has for it, if there is
    an OSM map. -/
structure RoadEntry where
  wayid : String
  name : Option String
  deriving DecidableEq

namespace RoadEntry

/-- The string for the road: the name if there is an OSM map, even if it is empty. -/
def key (e : RoadEntry) : String := e.name.getD e.wayid

/-- The road of the edge: its name if that is not empty, its way otherwise. -/
def road (e : RoadEntry) : Road :=
  if e.name.getD "" = "" then .way e.wayid else .named (e.name.getD "")

end RoadEntry

/-- The tag has a key, which is not `name`. -/
def OsmTag.Passed (tag : OsmTag) : Prop := ∃ k, tag.k = some k ∧ k ≠ "name"

/-- The way has an id. If that is `wayid`, then the way has no name. -/
def OsmWay.Passed (wayid : String) (way : OsmWay) : Prop :=
  ∃ id, way.id = some id ∧ (id = wayid → ∀ tag ∈ way.tags, tag.Passed)

/-- The OSM map has a name for the way: the value of its first tag with the key `name`. -/
def Named (ways : List OsmWay) (wayid name : String) : Prop :=
  ∃ before way after tagsBefore tag tagsAfter,
    ways = before ++ way :: after ∧ (∀ w ∈ before, w.Passed wayid) ∧ way.id = some wayid ∧
      way.tags = tagsBefore ++ tag :: tagsAfter ∧ (∀ t ∈ tagsBefore, t.Passed) ∧
      tag.k = some "name" ∧ tag.v = some name

/-- The name of the way in the OSM map, which is empty if the map has none. -/
def HasName (ways : List OsmWay) (wayid name : String) : Prop :=
  Named ways wayid name ∨ name = "" ∧ ∀ way ∈ ways, way.Passed wayid

/-- What the edge is, read from the net and the OSM map: its id is one of those that the edges
    of its way can have. -/
structure EntryOf (osm : Option (List OsmWay)) (edge : SumoEdge) (e : RoadEntry) : Prop where
  way : IsWayName e.wayid ∧ ∃ id, edge.id = some id ∧ WayId e.wayid id
  name : match osm with
    | none => e.name = none
    | some ways => ∃ name, e.name = some name ∧ HasName ways e.wayid name
  ends : edge.fromid.isSome ∧ edge.toid.isSome

/-- The entries of the edges of all loads. -/
def EntriesOf (loads : List Load) (ess : List (List RoadEntry)) : Prop :=
  List.Forall₂ (fun load es => List.Forall₂ (EntryOf load.osm) load.edges es) loads ess

/-- `parseOsmWayid` finds the way unless there is a `-` in it. -/
def NoDash (e : RoadEntry) : Prop := '-' ∉ e.wayid.toList

/-- Tags that are passed over have no say in the name. -/
private theorem findName_append {before : List OsmTag} (h : ∀ t ∈ before, t.Passed)
    (tags : List OsmTag) : findName (before ++ tags) = findName tags := by
  induction before with
  | nil => rfl
  | cons t before ih =>
    obtain ⟨k, hk, hne⟩ := h t List.mem_cons_self
    rw [List.cons_append, findName, hk]
    simp only [attributeText, bind, Except.bind, if_neg hne]
    exact ih fun t' ht' => h t' (List.mem_cons_of_mem _ ht')

/-- Ways that are passed over have no say in the name of a way. -/
private theorem parseOsmRoadName_append {wayid : String} {before : List OsmWay}
    (h : ∀ w ∈ before, w.Passed wayid) (ways : List OsmWay) :
    parseOsmRoadName wayid (before ++ ways) = parseOsmRoadName wayid ways := by
  induction before with
  | nil => rfl
  | cons way before ih =>
    obtain ⟨id, hid, htags⟩ := h way List.mem_cons_self
    have hrest := ih fun w hw => h w (List.mem_cons_of_mem _ hw)
    rw [List.cons_append, parseOsmRoadName, hid]
    simp only [attributeText, bind, Except.bind]
    split
    case isTrue heq =>
      -- A way without a name does not end the search
      have hnone := findName_append (htags heq) []
      rw [List.append_nil] at hnone
      rw [hnone]
      exact hrest
    case isFalse => exact hrest

/-- The search finds the name. -/
theorem HasName.parseOsmRoadName {ways : List OsmWay} {wayid name : String}
    (h : HasName ways wayid name) : parseOsmRoadName wayid ways = .ok name := by
  rcases h with ⟨before, way, after, tagsBefore, tag, tagsAfter, rfl, hbefore, hid, htags, hpassed,
    hk, hv⟩ | ⟨rfl, hall⟩
  · have hname : findName way.tags = .ok (some name) := by
      rw [htags, findName_append hpassed, findName, hk, hv]
      rfl
    rw [parseOsmRoadName_append hbefore, NS3.parseOsmRoadName, hid]
    simp only [attributeText, bind, Except.bind, if_pos, hname]
    rfl
  · have hnone := parseOsmRoadName_append hall []
    rwa [List.append_nil] at hnone

/-- The loop reads the string of an edge whose way has no `-` in it. -/
theorem EntryOf.readEdge {osm : Option (List OsmWay)} {edge : SumoEdge} {e : RoadEntry}
    (h : EntryOf osm edge e) (hdash : NoDash e) :
    ∃ fromid toid, readEdge osm edge = .ok (e.key, fromid, toid) := by
  -- The attributes of the edge are there, and the id is cut to its way
  obtain ⟨hway, id, hid, hwayId⟩ := h.way
  obtain ⟨fromid, hfrom⟩ := Option.isSome_iff_exists.mp h.ends.1
  obtain ⟨toid, hto⟩ := Option.isSome_iff_exists.mp h.ends.2
  have hparse : parseOsmWayid id = .ok e.wayid :=
    (parseOsmWayid_of_wayId hway hwayId).trans
      ((wayOfToken_eq_self_iff hway.nonempty).mpr hdash)
  -- Without a file of the ways the key is the way, with one it is the name found there
  have hstr : findRoadidStr osm e.wayid = .ok e.key := by
    have hname := h.name
    cases osm with
    | none =>
      have hname : e.name = none := hname
      rw [RoadEntry.key, hname]
      rfl
    | some ways =>
      obtain ⟨name, hname, hhas⟩ := hname
      rw [RoadEntry.key, hname]
      exact hhas.parseOsmRoadName
  refine ⟨fromid, toid, ?_⟩
  simp only [NS3.readEdge, hid, hfrom, hto, attributeText, hparse, hstr, bind, Except.bind]
  rfl

/-! ## What the graph gets -/

section Graph

variable {K : Type} [Field K] [LinearOrder K] [FloorRing K]

/-- Linking the ends of an edge that has been given its number. -/
def linkEdge (env : SumoEnv K) (osm : Option (List OsmWay)) (g : Graph (Site K))
    (given : SumoEdge × Int32) : Except Fault (Graph (Site K)) := do
  let (_, fromid, toid) ← readEdge osm given.1
  loadSumoMapEdge env g fromid toid given.2 given.1.shape

/-- The loop gives the edges their numbers and links them with these. -/
theorem loadEdges_eq_ok {env : SumoEnv K} {osm : Option (List OsmWay)} {edges : List SumoEdge}
    {g g' : Graph (Site K)} {ids ids' : RoadIds}
    (h : loadEdges env osm g ids edges = .ok (g', ids')) :
    ∃ roadids, giveRoadids osm ids edges = .ok (roadids, ids') ∧
      (edges.zip roadids).foldlM (linkEdge env osm) g = .ok g' := by
  -- The roads are numbered and linked edge by edge
  induction edges generalizing g ids with
  | nil =>
    cases h
    exact ⟨[], rfl, rfl⟩
  | cons edge edges ih =>
    obtain ⟨⟨roadidStr, fromid, toid⟩, hread, h⟩ := bind_eq_ok.mp h
    obtain ⟨g₁, hlink, h⟩ := bind_eq_ok.mp h
    obtain ⟨roadids, hgive, hfold⟩ := @ih g₁ (roadidInt ids roadidStr).2 h
    refine ⟨(roadidInt ids roadidStr).1 :: roadids, ?_, ?_⟩
    · simp only [giveRoadids, hread, hgive, bind, Except.bind]
      rfl
    · have hstep : linkEdge env osm g (edge, (roadidInt ids roadidStr).1) = .ok g₁ := by
        simp only [linkEdge, hread, bind, Except.bind]
        exact hlink
      rw [List.zip_cons_cons, List.foldlM_cons, hstep]
      exact hfold

end Graph

/-! ## One load and all loads -/

/-- The numbers that a load gives are those of the strings, and its map has them all. -/
private theorem giveRoadids_of_entries {osm : Option (List OsmWay)} {edges : List SumoEdge}
    {es : List RoadEntry} (hentries : List.Forall₂ (EntryOf osm) edges es)
    (hdash : ∀ e ∈ es, NoDash e) {ids : RoadIds} {keys : List String}
    (h : Numbers ids.mapRoadid keys) (hc : CounterFits ids keys (es.map RoadEntry.key)) :
    ∃ ids', giveRoadids osm ids edges = .ok (es.map fun e =>
        roadNumber (Intern.addAll keys (es.map RoadEntry.key)) e.key, ids') ∧
      Numbers ids'.mapRoadid (Intern.addAll keys (es.map RoadEntry.key)) := by
  -- Edge by edge, the number of the first one is not changed by the later ones
  induction hentries generalizing ids keys with
  | nil => exact ⟨ids, rfl, h⟩
  | @cons edge e edges es he _ ih =>
    obtain ⟨fromid, toid, hedge⟩ := he.readEdge (hdash e List.mem_cons_self)
    obtain ⟨hid, hnumbers, hcounter⟩ := roadidInt_of_numbers h hc
    obtain ⟨ids', hrest, hids'⟩ :=
      ih (fun e he => hdash e (List.mem_cons_of_mem _ he)) hnumbers hcounter
    refine ⟨ids', ?_, hids'⟩
    -- The string of the first edge keeps the number it has got
    have hfirst : (roadidInt ids e.key).1 =
        roadNumber (Intern.addAll (Intern.add keys e.key) (es.map RoadEntry.key)) e.key := by
      rw [hid, roadNumber_addAll (Intern.mem_add.mpr (.inr rfl))]
    simp only [giveRoadids, hedge, hrest, bind, Except.bind, hfirst]
    rfl

/-- Only one load meets strings that are new: the first that meets any. -/
def OneNew (before : List String) : List (List RoadEntry) → Prop
  | [] => True
  | es :: ess => (before = [] ∨ es.map RoadEntry.key ⊆ before) ∧
      OneNew (before ++ es.map RoadEntry.key) ess

/-- The strings of a sequence of loads. -/
def allKeys (ess : List (List RoadEntry)) : List String := ess.flatten.map RoadEntry.key

/-- The numbers of all loads are those of the strings of all loads. -/
private theorem giveAllRoadids_of_entries {loads : List Load} {ess : List (List RoadEntry)}
    (hentries : EntriesOf loads ess) (hdash : ∀ e ∈ ess.flatten, NoDash e) {before : List String}
    {mapRoadid : List (String × Int32)} (h : Numbers mapRoadid (Intern.addAll [] before))
    (hnew : OneNew before ess) :
    giveAllRoadids mapRoadid loads = .ok (ess.map fun es => es.map fun e =>
      roadNumber (Intern.addAll [] (before ++ allKeys ess)) e.key) := by
  induction hentries generalizing before mapRoadid with
  | nil => rfl
  | @cons load es loads ess hes _ ih =>
    rw [List.flatten_cons, List.forall_mem_append] at hdash
    obtain ⟨hstep, hnew⟩ := hnew
    have hadd : Intern.addAll (Intern.addAll [] before) (es.map RoadEntry.key) =
        Intern.addAll [] (before ++ es.map RoadEntry.key) := (Intern.addAll_append [] _ _).symm
    -- The counter begins with 1 again, which is right for an empty map only
    have hcounter : CounterFits ⟨mapRoadid, 1⟩ (Intern.addAll [] before)
        (es.map RoadEntry.key) := by
      rcases hstep with rfl | hsub
      · exact .inl rfl
      · exact .inr fun x hx => Intern.mem_addAll.mpr (.inr (hsub hx))
    obtain ⟨ids, hgive, hids⟩ := giveRoadids_of_entries hes hdash.1 h hcounter
    rw [hadd] at hgive hids
    have hrest := ih hdash.2 hids hnew
    have hkeys : before ++ es.map RoadEntry.key ++ allKeys ess = before ++ allKeys (es :: ess) := by
      rw [allKeys, allKeys, List.flatten_cons, List.map_append, List.append_assoc]
    rw [hkeys] at hrest
    -- What comes later does not change the numbers of this load
    have hfirst : (es.map fun e => roadNumber (Intern.addAll [] (before ++ es.map RoadEntry.key))
        e.key) = es.map fun e => roadNumber (Intern.addAll [] (before ++ allKeys (es :: ess)))
        e.key := by
      apply List.map_congr_left
      intro e he
      have hlater : Intern.addAll [] (before ++ allKeys (es :: ess)) =
          Intern.addAll (Intern.addAll [] (before ++ es.map RoadEntry.key)) (allKeys ess) := by
        rw [← hkeys, Intern.addAll_append]
      have hmem : e.key ∈ Intern.addAll [] (before ++ es.map RoadEntry.key) :=
        Intern.mem_addAll.mpr (.inr (List.mem_append_right _ (List.mem_map_of_mem he)))
      rw [hlater, roadNumber_addAll hmem]
    simp only [giveAllRoadids, hgive, hrest, hfirst, bind, Except.bind]
    rfl

/-! ## Strings and roads -/

/-- The strings tell the roads apart. -/
structure Clear (es : List RoadEntry) : Prop where
  /-- At most one way has no name in the OSM map. -/
  unnamed : ∀ e ∈ es, ∀ e' ∈ es, e.name = some "" → e'.name = some "" → e.wayid = e'.wayid
  /-- It is not met without the OSM map. -/
  unmixed : ∀ e ∈ es, ∀ e' ∈ es, e.name = some "" → e'.name = none → e.wayid ≠ e'.wayid
  /-- No name is the id of a way that is met without the OSM map. -/
  names : ∀ e ∈ es, ∀ e' ∈ es, ∀ n, e.name = some n → e'.name = none → n ≠ e'.wayid

/-- Two entries have one key exactly if they are of one road. -/
private theorem Clear.key_eq_iff {es : List RoadEntry} (h : Clear es) {e e' : RoadEntry}
    (he : e ∈ es) (he' : e' ∈ es) : e.key = e'.key ↔ e.road = e'.road := by
  obtain ⟨w, name⟩ := e
  obtain ⟨w', name'⟩ := e'
  have hunnamed := h.unnamed _ he _ he'
  have hunmixed := h.unmixed _ he _ he'
  have hunmixed' := h.unmixed _ he' _ he
  have hnames := h.names _ he _ he'
  have hnames' := h.names _ he' _ he
  -- With and without the OSM map; there an empty name is the string of every way without a name
  rcases name with _ | n <;> rcases name' with _ | n'
  case none.none => simp [RoadEntry.key, RoadEntry.road]
  case none.some =>
    have hne : w ≠ n' := (hnames' n' rfl rfl).symm
    by_cases hn : n' = ""
    · subst hn
      simpa [RoadEntry.key, RoadEntry.road, hne] using (hunmixed' rfl rfl).symm
    · simp [RoadEntry.key, RoadEntry.road, hne, hn]
  case some.none =>
    have hne : n ≠ w' := hnames n rfl rfl
    by_cases hn : n = ""
    · subst hn
      simpa [RoadEntry.key, RoadEntry.road, hne] using hunmixed rfl rfl
    · simp [RoadEntry.key, RoadEntry.road, hne, hn]
  case some.some =>
    by_cases hn : n = "" <;> by_cases hn' : n' = ""
    · subst hn hn'
      simpa [RoadEntry.key, RoadEntry.road] using hunnamed rfl rfl
    · subst hn
      simp [RoadEntry.key, RoadEntry.road, hn', Ne.symm hn']
    · subst hn'
      simp [RoadEntry.key, RoadEntry.road, hn]
    · simp [RoadEntry.key, RoadEntry.road, hn, hn']

/-- Every edge has a number, and two edges have the same exactly if they are of one road. -/
def RoadsTold (es : List RoadEntry) (roadids : List Int32) : Prop :=
  roadids.length = es.length ∧
    ∀ x ∈ es.zip roadids, ∀ y ∈ es.zip roadids, x.2 = y.2 ↔ x.1.road = y.1.road

/-- A list beside its image. -/
private theorem mem_zip_map {α β : Type} {f : α → β} {l : List α} {x : α × β}
    (h : x ∈ l.zip (l.map f)) :
    x.1 ∈ l ∧ x.2 = f x.1 := by
  rw [← List.map_id l, List.map_map, List.zip_map'] at h
  obtain ⟨a, ha, rfl⟩ := List.mem_map.mp h
  exact ⟨ha, rfl⟩

/-- In every sequence of loads of which only one meets new strings, whose ways have no `-` in
    them, and whose strings tell the roads apart, the numbers tell the roads apart. -/
theorem roadids_tell_roads {loads : List Load} {ess : List (List RoadEntry)}
    (hentries : EntriesOf loads ess) (hdash : ∀ e ∈ ess.flatten, NoDash e)
    (hnew : OneNew [] ess) (hclear : Clear ess.flatten)
    (hfew : (allKeys ess).dedup.length < 2 ^ 31 - 1) :
    ∃ roadids, giveAllRoadids [] loads = .ok roadids ∧
      RoadsTold ess.flatten roadids.flatten := by
  have hempty : Numbers [] (Intern.addAll [] []) := fun k => rfl
  refine ⟨_, giveAllRoadids_of_entries hentries hdash hempty hnew, ?_⟩
  have hflat : ∀ f : RoadEntry → Int32, (ess.map fun es => es.map f).flatten = ess.flatten.map f :=
    fun f => (List.map_flatten (f := f)).symm
  rw [hflat, List.nil_append]
  have hlen := Nat.lt_of_le_of_lt (Intern.length_addAll_nil_le (allKeys ess)) hfew
  refine ⟨List.length_map _, fun x hx y hy => ?_⟩
  obtain ⟨hxmem, hxnumber⟩ := mem_zip_map hx
  obtain ⟨hymem, hynumber⟩ := mem_zip_map hy
  have hxkey : x.1.key ∈ Intern.addAll [] (allKeys ess) :=
    Intern.mem_addAll.mpr (.inr (List.mem_map_of_mem hxmem))
  rw [hxnumber, hynumber, roadNumber_inj hlen hxkey]
  exact hclear.key_eq_iff hxmem hymem

/-- An edge of a net between two junctions. -/
def plainEdge (id : String) : SumoEdge := ⟨some id, some "u", some "v", none⟩

/-- An edge whose way has no name, without the file of the ways. -/
private theorem entryOf_plainEdge {id wayid : String} (hway : IsWayName wayid)
    (hid : WayId wayid id) :
    EntryOf none (plainEdge id) ⟨wayid, none⟩ :=
  ⟨⟨hway, id, rfl, hid⟩, rfl, rfl, rfl⟩

/-- `7` is the name of a way. -/
private theorem isWayName_7 : IsWayName "7" := ⟨by decide, by decide, by decide⟩

/-- `8` is the name of a way. -/
private theorem isWayName_8 : IsWayName "8" := ⟨by decide, by decide, by decide⟩

/-- Two segments of a way and its way back, then the same net with another road. -/
theorem roadids_tell_roads_twice : ∃ roadids,
    giveAllRoadids [] [⟨none, [plainEdge "7#0", plainEdge "-7#1", plainEdge "8"]⟩,
      ⟨none, [plainEdge "8", plainEdge "7"]⟩] = .ok roadids ∧
    RoadsTold [⟨"7", none⟩, ⟨"7", none⟩, ⟨"8", none⟩, ⟨"8", none⟩, ⟨"7", none⟩]
      roadids.flatten := by
  have h7 : EntryOf none (plainEdge "7") ⟨"7", none⟩ := entryOf_plainEdge isWayName_7 .forth
  have h70 : EntryOf none (plainEdge "7#0") ⟨"7", none⟩ :=
    entryOf_plainEdge isWayName_7 (.segment "0")
  have h71 : EntryOf none (plainEdge "-7#1") ⟨"7", none⟩ :=
    entryOf_plainEdge isWayName_7 (.segmentBack "1")
  have h8 : EntryOf none (plainEdge "8") ⟨"8", none⟩ := entryOf_plainEdge isWayName_8 .forth
  have hentries : EntriesOf [⟨none, [plainEdge "7#0", plainEdge "-7#1", plainEdge "8"]⟩,
        ⟨none, [plainEdge "8", plainEdge "7"]⟩]
      [[⟨"7", none⟩, ⟨"7", none⟩, ⟨"8", none⟩], [⟨"8", none⟩, ⟨"7", none⟩]] :=
    .cons (.cons h70 (.cons h71 (.cons h8 .nil))) (.cons (.cons h8 (.cons h7 .nil)) .nil)
  exact roadids_tell_roads hentries (by simp [NoDash]) ⟨.inl rfl, .inr (by decide), trivial⟩
    ⟨by simp, by simp, by simp⟩ (by decide)

/-- A sequence of loads after which the numbers do not tell the roads apart. -/
structure MixesRoads (loads : List Load) (ess : List (List RoadEntry))
    (roadids : List (List Int32)) : Prop where
  entries : EntriesOf loads ess
  given : giveAllRoadids [] loads = .ok roadids
  mixed : ¬ RoadsTold ess.flatten roadids.flatten

/-- The second load begins with the number 1 again, two ways without a name are one road, and two
    edges of the net that is loaded by default lose their ways. -/
theorem roadids_mix_roads :
    MixesRoads [⟨none, [plainEdge "7"]⟩, ⟨none, [plainEdge "8"]⟩] [[⟨"7", none⟩], [⟨"8", none⟩]]
        [[1], [1]] ∧
      MixesRoads [⟨some [⟨some "7", []⟩, ⟨some "8", []⟩], [plainEdge "7", plainEdge "8"]⟩]
        [[⟨"7", some ""⟩, ⟨"8", some ""⟩]] [[1, 1]] ∧
      MixesRoads [⟨none, [plainEdge "edgeD-0-0", plainEdge "edgeL-0-0"]⟩]
        [[⟨"edgeD-0-0", none⟩, ⟨"edgeL-0-0", none⟩]] [[1, 1]] := by
  refine ⟨⟨?_, rfl, fun h => ?_⟩, ⟨?_, rfl, fun h => ?_⟩, ⟨?_, rfl, fun h => ?_⟩⟩
  · exact .cons (.cons (entryOf_plainEdge isWayName_7 .forth) .nil)
      (.cons (.cons (entryOf_plainEdge isWayName_8 .forth) .nil) .nil)
  · exact absurd (h.2 (⟨"7", none⟩, 1) (by decide) (⟨"8", none⟩, 1) (by decide)) (by decide)
  · have hunnamed : ∀ wayid : String, HasName [⟨some "7", []⟩, ⟨some "8", []⟩] wayid "" := by
      refine fun wayid => .inr ⟨rfl, fun way hway => ?_⟩
      rcases List.mem_pair.mp hway with rfl | rfl
      all_goals exact ⟨_, rfl, fun _ tag htag => nomatch htag⟩
    exact .cons (.cons ⟨⟨isWayName_7, _, rfl, .forth⟩, ⟨_, rfl, hunnamed "7"⟩, rfl, rfl⟩
      (.cons ⟨⟨isWayName_8, _, rfl, .forth⟩, ⟨_, rfl, hunnamed "8"⟩, rfl, rfl⟩ .nil)) .nil
  · exact absurd (h.2 (⟨"7", some ""⟩, 1) (by decide) (⟨"8", some ""⟩, 1) (by decide)) (by decide)
  · have hD : IsWayName "edgeD-0-0" := ⟨by decide, by decide, by decide⟩
    have hL : IsWayName "edgeL-0-0" := ⟨by decide, by decide, by decide⟩
    exact .cons (.cons (entryOf_plainEdge hD .forth) (.cons (entryOf_plainEdge hL .forth) .nil))
      .nil
  · exact absurd (h.2 (⟨"edgeD-0-0", none⟩, 1) (by decide) (⟨"edgeL-0-0", none⟩, 1) (by decide))
      (by decide)

end MapRelay.NS3
