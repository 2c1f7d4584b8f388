import MapRelay.Native.NetlinkUser
import MapRelay.Spec.Netlink
import MapRelay.Spec.RoadMap

/-!
# The map that arrives in the kernel

The tool sends its commands one after the other. The graph of the kernel is then the map that they
describe, with one exception: the last four bytes of a `deliver`, which are the road id of an edge,
are not in the message, and the kernel takes what is behind it.
-/

namespace MapRelay.Kernel

open ForStd MapRelay.Graph

variable {e : Endian} {d : Deliver} {offset offset' n x : Nat} {behind : List UInt8}

/-! ## Variables -/

/-- An encoded number has the given width. -/
@[simp] theorem length_encode (e : Endian) (n x : Nat) : (e.encode n x).length = n := by
  cases e <;> simp [Endian.encode]

/-- It is read back as far as it fits. -/
private theorem value_encode (e : Endian) (n x : Nat) : e.value (e.encode n x) = x % 256 ^ n := by
  cases e <;> simp [Endian.value, Endian.encode, networkValue_networkBytes]

/-! ## The message -/

/-- The header has its size. -/
private theorem length_messageHeader (e : Endian) : (messageHeader e).length = nlmsgHdrlen := by
  simp [messageHeader, nlmsgHdrlen]

/-- A message is its header and the bytes that its length admits. -/
private theorem messageSend_eq (e : Endian) (d : Deliver) :
    messageSend e d = messageHeader e ++ d.take maxPload := by
  have hlen : (messageHeader e).length = 16 := length_messageHeader e
  show (messageHeader e ++ d).take 76 = _
  rw [List.take_append, hlen, List.take_of_length_le (by omega)]
  rfl

/-- The message as it lies in the memory of the kernel. -/
def message (e : Endian) (d : Deliver) (behind : List UInt8) : Region := ⟨messageSend e d, behind⟩

/-- The message in the memory of the kernel has the announced length. -/
private theorem length_message (e : Endian) (behind : List UInt8)
    (hd : d.length = sizeofGraphDeliver) :
    (message e d behind).own.length = nlmsgHdrlen + maxPload := by
  have hpayload : (d.take maxPload).length = maxPload := by
    rw [List.length_take, hd]
    rfl
  rw [message, messageSend_eq, List.length_append, length_messageHeader, hpayload]

/-- The first 60 bytes of the `deliver` are in the message. -/
private theorem drop_message (e : Endian) (d : Deliver) (behind : List UInt8)
    (h : offset + n ≤ maxPload) :
    ((message e d behind).own.drop (nlmsgHdrlen + offset)).take n = Memory.bytesAt d offset n := by
  have hle : offset ≤ maxPload := by omega
  rw [message, messageSend_eq, ← length_messageHeader e, List.drop_append, Nat.add_sub_cancel_left,
    List.drop_of_length_le (Nat.le_add_right _ _), List.nil_append, List.drop_take, List.take_take,
    Memory.bytesAt, Nat.min_eq_left (by omega)]

/-- The kernel reads the bytes that were put in, as long as it stays within the message. -/
private theorem read_message (e : Endian) (behind : List UInt8) (hd : d.length = sizeofGraphDeliver)
    (h : offset + n ≤ maxPload) :
    (message e d behind).read (nlmsgHdrlen + offset) n = Memory.bytesAt d offset n := by
  rw [Region.read_of_le (by rw [length_message e behind hd]; omega), drop_message e d behind h]

/-- A string that ends in the message is read from it. -/
private theorem cString_message {s : IdStr}
    (hs : Memory.bytesAt d offset (s.chars.length + 1) = s.chars ++ [0])
    (h : offset + (s.chars.length + 1) ≤ maxPload) :
    (message e d behind).cString (nlmsgHdrlen + offset) = s.chars := by
  -- The id lies within the part of the message that is sent
  have hfield := drop_message e d behind h
  have hend : (message e d behind).Terminated (nlmsgHdrlen + offset) (s.chars.length + 1) := by
    rw [Region.Terminated, hfield, hs]
    simp
  -- No character of the id is the end
  have hall : ∀ c ∈ s.chars, decide (c ≠ 0) = true := by
    intro c hc
    exact decide_eq_true fun hzero => s.no_end (hzero ▸ hc)
  rw [(Region.cString_of_terminated hend).1, hfield, hs, List.takeWhile_append_of_pos hall]
  show s.chars ++ [] = s.chars
  rw [List.append_nil]

/-- The kernel reads the number of the command. -/
private theorem graphDeliverMode_message (behind : List UInt8) (hd : d.length = sizeofGraphDeliver)
    {mode : Nat} (hmode : Memory.bytesAt d 0 2 = e.encode 2 mode) :
    graphDeliverMode e (message e d behind) nlmsgHdrlen = (UInt16.ofNat mode).toInt16 := by
  have hread := read_message e behind hd (show 0 + 2 ≤ maxPload by decide)
  rw [Nat.add_zero] at hread
  rw [graphDeliverMode, hread, hmode, value_encode]
  congr 1
  rw [← UInt16.toNat_inj, UInt16.toNat_ofNat', UInt16.toNat_ofNat']
  exact Nat.mod_mod _ _

/-! ## The assignments -/

/-- Assigning a field keeps the size of the structure. -/
private theorem length_assign (hd : d.length = sizeofGraphDeliver)
    (h : offset + n ≤ sizeofGraphDeliver) :
    (d.assign e offset n x).length = sizeofGraphDeliver := by
  rw [Deliver.assign, Memory.length_poke (by rw [length_encode, hd]; exact h), hd]

/-- The assigned field has the bytes of the number. -/
private theorem bytesAt_assign (hd : d.length = sizeofGraphDeliver)
    (h : offset + n ≤ sizeofGraphDeliver) :
    Memory.bytesAt (d.assign e offset n x) offset n = e.encode n x := by
  have hpoke : Memory.bytesAt (d.assign e offset n x) offset (e.encode n x).length =
      e.encode n x := Memory.bytesAt_poke_self (by rw [length_encode, hd]; exact h)
  rwa [length_encode] at hpoke

/-- What does not meet the assigned field is as before. -/
private theorem bytesAt_assign_of_disjoint {k : Nat} (hd : d.length = sizeofGraphDeliver)
    (h : offset + n ≤ sizeofGraphDeliver)
    (hdisjoint : offset' + k ≤ offset ∨ offset + n ≤ offset') :
    Memory.bytesAt (d.assign e offset n x) offset' k = Memory.bytesAt d offset' k :=
  Memory.bytesAt_poke_of_disjoint (by rw [length_encode, hd]; exact h)
    (by rwa [length_encode])

/-- An id with its terminator fits into its field. -/
private theorem length_chars (s : IdStr) : (s.chars ++ [0]).length ≤ idLength := by
  have hfits := s.fits
  rw [List.length_append, List.length_singleton]
  omega

/-- Copying an id keeps the size of the structure. -/
private theorem length_strcpy (hd : d.length = sizeofGraphDeliver)
    (h : offset + idLength ≤ sizeofGraphDeliver) (s : IdStr) :
    (d.strcpy offset s).length = sizeofGraphDeliver := by
  have hs := length_chars s
  rw [Deliver.strcpy, Memory.length_poke (by omega), hd]

/-- The field that is copied to begins with the id and its terminator. -/
private theorem bytesAt_strcpy (hd : d.length = sizeofGraphDeliver)
    (h : offset + idLength ≤ sizeofGraphDeliver) (s : IdStr) :
    Memory.bytesAt (d.strcpy offset s) offset (s.chars.length + 1) = s.chars ++ [0] := by
  have hs := length_chars s
  have hpoke : Memory.bytesAt (d.strcpy offset s) offset (s.chars ++ [0]).length =
      s.chars ++ [0] := Memory.bytesAt_poke_self (by omega)
  rwa [List.length_append, List.length_singleton] at hpoke

/-- What does not meet the field that is copied to is as before. -/
private theorem bytesAt_strcpy_of_disjoint (hd : d.length = sizeofGraphDeliver)
    (h : offset + idLength ≤ sizeofGraphDeliver) (s : IdStr)
    (hdisjoint : offset' + n ≤ offset ∨ offset + idLength ≤ offset') :
    Memory.bytesAt (d.strcpy offset s) offset' n = Memory.bytesAt d offset' n := by
  have hs := length_chars s
  exact Memory.bytesAt_poke_of_disjoint (by omega) (by omega)

/-! ## What the kernel reads -/

/-- The road id that the kernel finds behind a message. -/
def roadBehind (e : Endian) (behind : List UInt8) : Int32 :=
  (UInt32.ofNat (e.value ((⟨[], behind⟩ : Region).read 0 4))).toInt32

/-- The command that arrives. -/
def UserCommand.heard (e : Endian) (behind : List UInt8) : UserCommand → GraphDeliver
  | .delNode vertex => .delNode (idString vertex.chars)
  | .newNode vertex geohash => .newNode (idString vertex.chars) geohash
  | .newEdge source target _ =>
    .newEdge (idString source.chars) (idString target.chars) (roadBehind e behind)

/-- A filled structure has its size. -/
private theorem length_fill (e : Endian) (hd : d.length = sizeofGraphDeliver)
    (command : UserCommand) :
    (command.fill e d).length = sizeofGraphDeliver := by
  cases command with
  | delNode vertex =>
    exact length_strcpy (length_assign hd (by decide)) (by decide) vertex
  | newNode vertex geohash =>
    exact length_assign (length_strcpy (length_assign hd (by decide)) (by decide) vertex)
      (by decide)
  | newEdge source target roadId =>
    exact length_assign (length_strcpy (length_strcpy (length_assign hd (by decide)) (by decide)
      source) (by decide) target) (by decide)

/-- The number of the command, `mode`. -/
def UserCommand.mode : UserCommand → Nat
  | .delNode _ => 1
  | .newNode _ _ => 2
  | .newEdge _ _ _ => 3

/-- It is in the first two bytes, whatever is assigned after it. -/
private theorem bytesAt_mode (e : Endian) (hd : d.length = sizeofGraphDeliver)
    (command : UserCommand) :
    Memory.bytesAt (command.fill e d) 0 2 = e.encode 2 command.mode := by
  -- The later writes leave the first two bytes alone
  cases command with
  | delNode vertex =>
    have h₁ := length_assign (e := e) (x := 1) hd (show 0 + 2 ≤ sizeofGraphDeliver by decide)
    exact (bytesAt_strcpy_of_disjoint h₁ (by decide) vertex (by decide)).trans
      (bytesAt_assign hd (by decide))
  | newNode vertex geohash =>
    have h₁ := length_assign (e := e) (x := 2) hd (show 0 + 2 ≤ sizeofGraphDeliver by decide)
    have h₂ := length_strcpy h₁ (show 8 + idLength ≤ sizeofGraphDeliver by decide) vertex
    exact (bytesAt_assign_of_disjoint h₂ (by decide) (by decide)).trans
      ((bytesAt_strcpy_of_disjoint h₁ (by decide) vertex (by decide)).trans
        (bytesAt_assign hd (by decide)))
  | newEdge source target roadId =>
    have h₁ := length_assign (e := e) (x := 3) hd (show 0 + 2 ≤ sizeofGraphDeliver by decide)
    have h₂ := length_strcpy h₁ (show 8 + idLength ≤ sizeofGraphDeliver by decide) source
    have h₃ := length_strcpy h₂ (show 33 + idLength ≤ sizeofGraphDeliver by decide) target
    exact (bytesAt_assign_of_disjoint h₃ (by decide) (by decide)).trans
      ((bytesAt_strcpy_of_disjoint h₂ (by decide) target (by decide)).trans
        ((bytesAt_strcpy_of_disjoint h₁ (by decide) source (by decide)).trans
          (bytesAt_assign hd (by decide))))

/-- The kernel reads the id up to its terminator. -/
private theorem cString_fill (e : Endian) (behind : List UInt8) {s : IdStr}
    (hs : Memory.bytesAt d offset (s.chars.length + 1) = s.chars ++ [0])
    (h : offset + idLength ≤ maxPload) :
    (message e d behind).cString (nlmsgHdrlen + offset) = s.chars := by
  have hfits := s.fits
  exact cString_message hs (by omega)

/-- The removal of a site arrives. -/
private theorem graphDeliverAt_delNode_message (hd : d.length = sizeofGraphDeliver)
    (vertex : IdStr) :
    graphDeliverAt e (message e ((UserCommand.delNode vertex).fill e d) behind) nlmsgHdrlen =
      .ok (.delNode (idString vertex.chars)) := by
  have hlen := length_fill e hd (.delNode vertex)
  have hmode := graphDeliverMode_message behind hlen
    (bytesAt_mode e hd (.delNode vertex))
  have hid : Memory.bytesAt ((UserCommand.delNode vertex).fill e d) 8 (vertex.chars.length + 1) =
      vertex.chars ++ [0] := bytesAt_strcpy (length_assign hd (by decide)) (by decide) vertex
  rw [graphDeliverAt_delNode (hmode.trans rfl), cString_fill e behind hid (by decide)]

/-- A new site arrives with its geohash. -/
private theorem graphDeliverAt_newNode_message (hd : d.length = sizeofGraphDeliver) (vertex : IdStr)
    (geohash : UInt64) :
    graphDeliverAt e (message e ((UserCommand.newNode vertex geohash).fill e d) behind)
        nlmsgHdrlen = .ok (.newNode (idString vertex.chars) geohash) := by
  -- The mode, the id and the geohash, each read at its offset
  have hlen := length_fill e hd (.newNode vertex geohash)
  have hmode := graphDeliverMode_message behind hlen
    (bytesAt_mode e hd (.newNode vertex geohash))
  have h₁ := length_assign (e := e) (x := 2) hd (show 0 + 2 ≤ sizeofGraphDeliver by decide)
  have h₂ := length_strcpy h₁ (show 8 + idLength ≤ sizeofGraphDeliver by decide) vertex
  have hfits := vertex.fits
  have hid : Memory.bytesAt ((UserCommand.newNode vertex geohash).fill e d) 8
      (vertex.chars.length + 1) = vertex.chars ++ [0] :=
    (bytesAt_assign_of_disjoint h₂ (by decide) (by simp only [idLength] at hfits; omega)).trans
      (bytesAt_strcpy h₁ (by decide) vertex)
  have hgeohash : (message e ((UserCommand.newNode vertex geohash).fill e d) behind).read
      (nlmsgHdrlen + 40) 8 = e.encode 8 geohash.toNat :=
    (read_message e behind hlen (by decide)).trans (bytesAt_assign h₂ (by decide))
  have hcopy : strcpyIdStr vertex.chars = .ok (idString vertex.chars) := if_pos hfits
  have hvalue : UInt64.ofNat (geohash.toNat % 256 ^ 8) = geohash := by
    rw [show 256 ^ 8 = 2 ^ 64 from rfl, Nat.mod_eq_of_lt geohash.toNat_lt, UInt64.ofNat_toNat]
  rw [graphDeliverAt, hmode, cString_fill e behind hid (by decide), hcopy, hgeohash, value_encode,
    hvalue]
  rfl

/-- A road arrives, with the road id that the kernel finds behind the message. -/
private theorem graphDeliverAt_newEdge_message (hd : d.length = sizeofGraphDeliver)
    (source target : IdStr) (roadId : Int32) :
    graphDeliverAt e (message e ((UserCommand.newEdge source target roadId).fill e d) behind)
        nlmsgHdrlen = .ok (.newEdge (idString source.chars) (idString target.chars)
          (roadBehind e behind)) := by
  have hlen := length_fill e hd (.newEdge source target roadId)
  have hmode := graphDeliverMode_message behind hlen
    (bytesAt_mode e hd (.newEdge source target roadId))
  have h₁ := length_assign (e := e) (x := 3) hd (show 0 + 2 ≤ sizeofGraphDeliver by decide)
  have h₂ := length_strcpy h₁ (show 8 + idLength ≤ sizeofGraphDeliver by decide) source
  have h₃ := length_strcpy h₂ (show 33 + idLength ≤ sizeofGraphDeliver by decide) target
  have hsourceFits := source.fits
  have htargetFits := target.fits
  simp only [idLength] at hsourceFits htargetFits
  have hsource : Memory.bytesAt ((UserCommand.newEdge source target roadId).fill e d) 8
      (source.chars.length + 1) = source.chars ++ [0] :=
    (bytesAt_assign_of_disjoint h₃ (by decide) (by omega)).trans
      ((bytesAt_strcpy_of_disjoint h₂ (by decide) target (by omega)).trans
        (bytesAt_strcpy h₁ (by decide) source))
  have htarget : Memory.bytesAt ((UserCommand.newEdge source target roadId).fill e d) 33
      (target.chars.length + 1) = target.chars ++ [0] :=
    (bytesAt_assign_of_disjoint h₃ (by decide) (by omega)).trans
      (bytesAt_strcpy h₂ (by decide) target)
  -- The message ends where the road id begins
  have hroad : (message e ((UserCommand.newEdge source target roadId).fill e d) behind).read
      (nlmsgHdrlen + 60) 4 = (⟨[], behind⟩ : Region).read 0 4 := by
    have hown := length_message e behind hlen
    rw [Region.read, List.drop_append, hown, List.drop_of_length_le (by rw [hown]; decide)]
    rfl
  rw [graphDeliverAt, hmode, cString_fill e behind hsource (by decide),
    cString_fill e behind htarget (by decide), hroad]
  rfl

/-- Each command arrives, apart from the road id. -/
private theorem graphDeliverAt_message (e : Endian) (behind : List UInt8)
    (hd : d.length = sizeofGraphDeliver) (command : UserCommand) :
    graphDeliverAt e (message e (command.fill e d) behind) nlmsgHdrlen =
      .ok (command.heard e behind) := by
  cases command with
  | delNode vertex => exact graphDeliverAt_delNode_message hd vertex
  | newNode vertex geohash => exact graphDeliverAt_newNode_message hd vertex geohash
  | newEdge source target roadId => exact graphDeliverAt_newEdge_message hd source target roadId

/-- The kernel answers with what was sent. -/
private theorem netlinkSendMsg_message (e : Endian) (behind : List UInt8)
    (hd : d.length = sizeofGraphDeliver) :
    netlinkSendMsg (message e d behind) nlmsgHdrlen (nlmsgLen e (message e d behind)) =
      d.take maxPload := by
  -- The length in the header is that of `MAX_PLOAD` bytes
  have hfirst : (message e d behind).read 0 4 = e.encode 4 (nlmsgSpace maxPload) := by
    have hlong := length_message e behind hd
    rw [Region.read_of_le (by rw [hlong]; decide), message, messageSend_eq]
    simp only [List.drop_zero, messageHeader, List.append_assoc]
    rw [List.take_append_of_le_length (by rw [length_encode]),
      List.take_of_length_le (by rw [length_encode])]
  -- So 60 bytes of the payload are copied
  have hlen : nlmsgLen e (message e d behind) = 60 := by
    rw [nlmsgLen, hfirst, value_encode]
    rfl
  rw [netlinkSendMsg, hlen]
  exact read_message e behind hd (show 0 + 60 ≤ maxPload by decide)

/-- In every sequence of commands that makes sense for the map, the tool gets back what it has
    sent, and the graph of the kernel is the map of the commands that have arrived. -/
theorem map_arrives (e : Endian) (hd : d.length = sizeofGraphDeliver)
    {xs : List (UserCommand × Found)} {m : RoadMap}
    (hrun : Run (fun m x m' => RoadMap.Step x.2.next m (x.1.heard e x.2.behind) m') .empty xs m) :
    ∃ s, Run (UserStep e) ⟨d, graphCreate⟩ xs s ∧ Represents s.graph m := by
  -- The struct keeps its size from one message to the next
  suffices h : ∃ s, Run (UserStep e) ⟨d, graphCreate⟩ xs s ∧ Represents s.graph m ∧
      s.d.length = sizeofGraphDeliver by
    obtain ⟨s, hsent, hgraph, -⟩ := h
    exact ⟨s, hsent, hgraph⟩
  induction hrun with
  | nil => exact ⟨_, .nil, represents_empty, hd⟩
  | @snoc xs x m m' _ hstep ih =>
    obtain ⟨s, hsent, hgraph, hlen⟩ := ih
    obtain ⟨g', hcarried, hgraph'⟩ := hgraph.step hstep
    have hlen' := length_fill e hlen x.1
    have hlong : nlmsgHdrlen ≤ (message e (x.1.fill e s.d) x.2.behind).own.length := by
      rw [length_message e x.2.behind hlen']
      exact Nat.le_add_right _ _
    have hreceived :
        netlinkRecvCbSkb e x.2.next s.graph (message e (x.1.fill e s.d) x.2.behind) =
          .ok (g', some ((x.1.fill e s.d).take maxPload)) := by
      rw [netlinkRecvCbSkb_eq_ok hlong]
      exact ⟨_, graphDeliverAt_message e x.2.behind hlen x.1, hcarried,
        by rw [netlinkSendMsg_message e x.2.behind hlen']⟩
    exact ⟨⟨x.1.fill e s.d, g'⟩, hsent.snoc ⟨rfl, hreceived⟩, hgraph', hlen'⟩

/-! ## The map of the tool -/

/-- The ids of one small letter. -/
def shortId (i : Fin 26) : IdStr where
  chars := [97 + i.val.toUInt8]
  fits := Nat.le_of_ble_eq_true rfl
  no_end := by
    revert i
    decide

/-- The commands of `main`, with short ids and geohashes, and the removal of the last two sites.
    The bytes 7 and 9 are behind the messages for the two roads. The list node of the site that is
    removed first still has its `next`; the one removed second has `NULL` in it, and no road. -/
def mainCommands : List (UserCommand × Found) :=
  [(.newNode (shortId 0) 1, ⟨[], .same⟩), (.newNode (shortId 1) 2, ⟨[], .same⟩),
    (.newNode (shortId 2) 3, ⟨[], .same⟩),
    (.newEdge (shortId 0) (shortId 1) 10000, ⟨[7], .same⟩),
    (.newEdge (shortId 1) (shortId 2) 20000, ⟨[9], .same⟩),
    (.delNode (shortId 1), ⟨[], .same⟩), (.delNode (shortId 2), ⟨[], .null⟩)]

/-- The commands of `main` are a run of the road map, after which one site is left. -/
private theorem mainCommands_run : ∃ m, m.sites.map (·.geoHash) = [1] ∧
    Run (fun m x m' => RoadMap.Step x.2.next m (x.1.heard .little x.2.behind) m') .empty
      mainCommands m := by
  have hrun : Run (fun m x m' => RoadMap.Step x.2.next m (x.1.heard .little x.2.behind) m')
      RoadMap.empty ([] : List (UserCommand × Found)) .empty := .nil
  -- Three sites, two roads, and then two of the sites are deleted
  have hnode (m : RoadMap) (s : IdStr) (geohash : UInt64) :
      RoadMap.Step .same m ((UserCommand.newNode s geohash).heard .little [])
        (m.addSite (idString s.chars) geohash) := .newNode
  have hrun := hrun.snoc (i := (.newNode (shortId 0) 1, ⟨[], .same⟩)) (hnode _ _ _)
  have hrun := hrun.snoc (i := (.newNode (shortId 1) 2, ⟨[], .same⟩)) (hnode _ _ _)
  have hrun := hrun.snoc (i := (.newNode (shortId 2) 3, ⟨[], .same⟩)) (hnode _ _ _)
  have hrun := hrun.snoc (i := (.newEdge (shortId 0) (shortId 1) 10000, ⟨[7], .same⟩))
    (.newEdge (u := 1) (v := 2) (by decide +kernel) (by decide +kernel))
  have hrun := hrun.snoc (i := (.newEdge (shortId 1) (shortId 2) 20000, ⟨[9], .same⟩))
    (.newEdge (u := 2) (v := 3) (by decide +kernel) (by decide +kernel))
  have hrun := hrun.snoc (i := (.delNode (shortId 1), ⟨[], .same⟩))
    (.delNode (v := 2) (by decide +kernel) (fun u hu => by
      simp only [RoadMap.addRoad, RoadMap.addSite, RoadMap.empty, Incidence.labels_cons,
        Incidence.ends]
      by_cases h₁ : u = 1 <;> by_cases h₃ : u = 3 <;> simp_all [Incidence.labels])
      (by decide) (fun u hne => by
        rw [FreedNext.reached_same]
        by_contra hu
        simp only [RoadMap.addRoad, RoadMap.addSite, RoadMap.empty, List.map_cons, List.map_nil,
          List.mem_cons, List.not_mem_nil, or_false, not_or] at hu
        apply hne
        simp only [RoadMap.addRoad, RoadMap.addSite, RoadMap.empty, Incidence.labels_cons,
          Incidence.ends]
        simp_all [Incidence.labels]))
  have hrun := hrun.snoc (i := (.delNode (shortId 2), ⟨[], .null⟩))
    (.delNode (v := 3) (by decide +kernel) (fun _ _ => by exact Nat.zero_le 1)
      (by decide) (fun u hne => absurd rfl hne))
  exact ⟨_, by decide +kernel, hrun⟩

/-- The sites and roads of the tool come and go in the kernel. -/
theorem map_arrives_main : ∃ s m, m.sites.map (·.geoHash) = [1] ∧
    Run (UserStep .little) ⟨List.replicate 64 0, graphCreate⟩ mainCommands s ∧
      Represents s.graph m := by
  obtain ⟨m, hsites, hrun⟩ := mainCommands_run
  obtain ⟨s, hsent, hgraph⟩ := map_arrives .little
    (show (List.replicate 64 0 : Deliver).length = sizeofGraphDeliver by decide) hrun
  exact ⟨s, m, hsites, hsent, hgraph⟩

end MapRelay.Kernel
