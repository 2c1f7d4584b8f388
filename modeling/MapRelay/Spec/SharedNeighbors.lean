import Mathlib.Data.Finset.Card
import MapRelay.ForStd.Run
import MapRelay.Native.SharedNeighbors

/-!
# When the neighbour writer stays in the shared memory

Every new address makes an entry, so that the number of entries is the number of addresses that
have sent a beacon. The memory has room for 511 entries, and the writer does not look.
-/

namespace MapRelay

open ForStd Memory

/-! ## The places of the members -/

/-- An entry of the writer has 32 bytes. -/
@[simp] theorem sizeof_rcv : Member.sizeof Rcv.neighborTable = 32 := by decide

/-- An entry of the kernel module has 32 bytes. -/
@[simp] theorem sizeof_kernel : Member.sizeof Kernel.neighborTable = 32 := by decide

/-- The address of entry `k` is at its start. -/
@[simp] theorem memberAt_ip (k : Nat) : memberAt Rcv.neighborTable k 0 = 5 + k * 32 := by
  rw [memberAt, sizeof_rcv]
  rfl

/-- The hardware address is 4 bytes behind. -/
@[simp] theorem memberAt_mac (k : Nat) : memberAt Rcv.neighborTable k 1 = 9 + k * 32 := by
  rw [memberAt, sizeof_rcv]
  show 5 + k * 32 + 4 = 9 + k * 32
  omega

/-- The geohash is 16 bytes behind. -/
@[simp] theorem memberAt_geoHash (k : Nat) : memberAt Rcv.neighborTable k 2 = 21 + k * 32 := by
  rw [memberAt, sizeof_rcv]
  show 5 + k * 32 + 16 = 21 + k * 32
  omega

/-- The members that both programs declare lie in the same places. -/
private theorem memberAt_kernel (k : Nat) {i : Nat} (hi : i < neighborMembers.length) :
    memberAt Kernel.neighborTable k i = memberAt Rcv.neighborTable k i := by
  have hoffset : (Member.offsets Kernel.neighborTable)[i]? =
      (Member.offsets Rcv.neighborTable)[i]? := Member.getElem?_offsets_append hi _ _
  rw [memberAt, memberAt, sizeof_rcv, sizeof_kernel, List.getD_eq_getElem?_getD,
    List.getD_eq_getElem?_getD, hoffset]

variable {e : Kernel.Endian}

/-- A number of 32 bits has 4 bytes. -/
@[simp] theorem width_u32 (e : Kernel.Endian) : e.u32.width = 4 := by cases e <;> rfl

/-- A number of 64 bits has 8 bytes. -/
@[simp] theorem width_u64 (e : Kernel.Endian) : e.u64.width = 8 := by cases e <;> rfl

/-- A byte is one byte. -/
@[simp] theorem width_u8Codec : u8Codec.width = 1 := rfl

/-- A hardware address has 6 bytes. -/
@[simp] theorem width_mac : (u8Codec.array 6).width = 6 := rfl

/-- Both programs see the same in an entry. -/
private theorem readEntry_kernel (e : Kernel.Endian) (mem : Memory) (k : Nat) :
    readEntry e Kernel.neighborTable mem k = readEntry e Rcv.neighborTable mem k := by
  rw [readEntry, readEntry, memberAt_kernel k (i := 0) (by decide),
    memberAt_kernel k (i := 1) (by decide), memberAt_kernel k (i := 2) (by decide)]

/-! ## The table that the memory shows -/

/-- What a beacon does to the table. -/
def upsert (b : SharedNeighbor) : List SharedNeighbor → List SharedNeighbor
  | [] => [b]
  | n :: table => if b.ip = n.ip then b :: table else n :: upsert b table

/-- The entry `n` lies at index `k`. -/
structure EntryAt (e : Kernel.Endian) (mem : Memory) (k : Nat) (n : SharedNeighbor) : Prop where
  ip : Holds e.u32 mem (memberAt Rcv.neighborTable k 0) n.ip
  mac : Holds (u8Codec.array 6) mem (memberAt Rcv.neighborTable k 1) n.mac
  geoHash : Holds e.u64 mem (memberAt Rcv.neighborTable k 2) n.geoHash

/-- The memory shows the table. -/
structure Shows (e : Kernel.Endian) (mem : Memory) (table : List SharedNeighbor) : Prop where
  length : mem.length = sharedLength
  count : Holds e.u32 mem neighCountOffset (.ofNat table.length)
  entry : ∀ k n, table[k]? = some n → EntryAt e mem k n

variable {mem mem' : Memory} {table : List SharedNeighbor} {b : SharedNeighbor}

/-- An entry that lies at an index is read there. -/
theorem EntryAt.readEntry {k : Nat} {n : SharedNeighbor} (h : EntryAt e mem k n) :
    readEntry e Rcv.neighborTable mem k = .ok n := by
  simp only [MapRelay.readEntry, load_of_holds h.ip, load_of_holds h.mac, load_of_holds h.geoHash,
    bind, Except.bind]
  rfl

/-- An entry lies in the memory. -/
theorem EntryAt.room {k : Nat} {n : SharedNeighbor} (h : EntryAt e mem k n) :
    29 + k * 32 ≤ mem.length := by
  have hroom := h.geoHash.1
  rw [memberAt_geoHash, width_u64] at hroom
  omega

/-- An entry stays where nothing is stored over it. -/
theorem EntryAt.of_store {α : Type} {c : Codec α} {a : α} {offset k : Nat} {n : SharedNeighbor}
    (h : EntryAt e mem k n) (hstore : store c mem offset a = .ok mem')
    (hdisjoint : 29 + k * 32 ≤ offset ∨ offset + c.width ≤ 5 + k * 32) : EntryAt e mem' k n where
  ip := h.ip.of_store hstore (by rw [memberAt_ip, width_u32]; omega)
  mac := h.mac.of_store hstore (by rw [memberAt_mac, width_mac]; omega)
  geoHash := h.geoHash.of_store hstore (by rw [memberAt_geoHash, width_u64]; omega)

/-- A table that is shown has at most 512 entries; the last of these lacks its end. -/
theorem Shows.length_le (h : Shows e mem table) : table.length ≤ 512 := by
  by_contra hlong
  have hlast : 512 < table.length := by omega
  have hroom := (h.entry 512 _ (List.getElem?_eq_getElem hlast)).room
  rw [h.length] at hroom
  simp only [sharedLength] at hroom
  omega

/-- The count that is read is the length of the table. -/
private theorem Shows.loadCount (h : Shows e mem table) :
    load e.u32 mem neighCountOffset = .ok (.ofNat table.length) :=
  load_of_holds h.count

/-- The count does not wrap around, since the table fits into the memory. -/
private theorem Shows.toNat_count (h : Shows e mem table) :
    (UInt32.ofNat table.length).toNat = table.length := by
  have hle := h.length_le
  exact UInt32.toNat_ofNat_of_lt' (by simp only [UInt32.size]; omega)

/-- What is outside the count and the entries does not matter. -/
private theorem Shows.of_store_status (h : Shows e mem table) {s : UInt8}
    (hstore : store u8Codec mem neighStatusOffset s = .ok mem') : Shows e mem' table where
  length := (length_of_store hstore).trans h.length
  count := h.count.of_store hstore (.inr (by decide))
  entry k n hn := (h.entry k n hn).of_store hstore (.inr (by
    rw [width_u8Codec, neighStatusOffset]
    omega))

/-! ## A step of the writer -/

/-- The loop finds the first entry with the address, or comes to the end. -/
private theorem findEntry_ok (hentry : ∀ k n, table[k]? = some n → EntryAt e mem k n) (ip : UInt32)
    (pre post : List SharedNeighbor) (htable : table = pre ++ post) :
    Rcv.findEntry e mem ip post.length pre.length =
      .ok (pre.length + post.findIdx fun n => ip == n.ip) := by
  induction post generalizing pre with
  | nil => rfl
  | cons n post ih =>
    -- The loop stands at the first entry of `post`
    have hn : table[pre.length]? = some n := by
      rw [htable, List.getElem?_append_right (Nat.le_refl _), Nat.sub_self]
      rfl
    have hload := load_of_holds (hentry _ n hn).ip
    by_cases hip : ip = n.ip
    · simp only [List.length_cons, Rcv.findEntry, hload, bind, Except.bind, if_pos hip]
      rw [List.findIdx_cons, hip, beq_self_eq_true, cond_true]
      rfl
    · -- The entry goes over to the part that has been passed
      have hrest := ih (pre ++ [n]) (by rw [htable, List.append_assoc]; rfl)
      rw [List.length_append, List.length_singleton] at hrest
      simp only [List.length_cons, Rcv.findEntry, hload, bind, Except.bind, if_neg hip]
      rw [hrest, List.findIdx_cons, beq_false_of_ne hip, cond_false]
      congr 1
      omega

/-- A beacon replaces the first entry with its address, or is appended. -/
private theorem upsert_eq (b : SharedNeighbor) (table : List SharedNeighbor) :
    upsert b table = if table.findIdx (fun n => b.ip == n.ip) < table.length then
      table.set (table.findIdx fun n => b.ip == n.ip) b else table ++ [b] := by
  induction table with
  | nil => rfl
  | cons n table ih =>
    by_cases hip : b.ip = n.ip
    · simp [upsert, List.findIdx_cons, hip]
    · rw [upsert, if_neg hip, ih, List.findIdx_cons, beq_false_of_ne hip, cond_false]
      simp only [List.length_cons, Nat.add_lt_add_iff_right, List.set_cons_succ, List.cons_append]
      split <;> rfl

/-- Writing the members behind the address completes an entry and leaves the others alone. -/
private theorem of_assignEntry {k : Nat} (h : Rcv.assignEntry e mem k b = .ok mem') :
    mem'.length = mem.length ∧
      (Holds e.u32 mem (memberAt Rcv.neighborTable k 0) b.ip → EntryAt e mem' k b) ∧
      (∀ j n, j ≠ k → EntryAt e mem j n → EntryAt e mem' j n) ∧
      ∀ n : UInt32, Holds e.u32 mem neighCountOffset n → Holds e.u32 mem' neighCountOffset n := by
  obtain ⟨mem₂, hmac, hgeo⟩ := bind_eq_ok.mp h
  -- The stores go to bytes 9 to 14 and 21 to 28 behind `32 * k`, all the rest is disjoint from them
  refine ⟨(length_of_store hgeo).trans (length_of_store hmac), fun hip => ⟨?_, ?_, ?_⟩,
    fun j n hne hj => ?_, fun n hn => ?_⟩
  · refine (hip.of_store hmac ?_).of_store hgeo ?_
    all_goals
      simp only [memberAt_ip, memberAt_mac, memberAt_geoHash, width_u32, width_mac, width_u64]
      omega
  · refine (holds_of_store hmac).of_store hgeo ?_
    simp only [memberAt_mac, memberAt_geoHash, width_mac, width_u64]
    omega
  · exact holds_of_store hgeo
  · refine (hj.of_store hmac ?_).of_store hgeo ?_
    all_goals
      simp only [memberAt_mac, memberAt_geoHash, width_mac, width_u64]
      omega
  · refine (hn.of_store hmac ?_).of_store hgeo ?_
    all_goals
      simp only [memberAt_mac, memberAt_geoHash, neighCountOffset, width_u32]
      omega

/-- It succeeds where the entry lies in the memory. -/
private theorem assignEntry_ok {k : Nat} (hroom : 29 + k * 32 ≤ mem.length) (b : SharedNeighbor) :
    ∃ mem', Rcv.assignEntry e mem k b = .ok mem' := by
  obtain ⟨mem₂, hmac⟩ : ∃ mem₂,
      store (u8Codec.array 6) mem (memberAt Rcv.neighborTable k 1) b.mac = .ok mem₂ :=
    store_ok (by rw [memberAt_mac, width_mac]; omega) b.mac
  have hlength := length_of_store hmac
  obtain ⟨mem₃, hgeo⟩ : ∃ mem₃,
      store e.u64 mem₂ (memberAt Rcv.neighborTable k 2) b.geoHash = .ok mem₃ :=
    store_ok (by rw [memberAt_geoHash, width_u64]; omega) b.geoHash
  exact ⟨mem₃, bind_eq_ok.mpr ⟨mem₂, hmac, hgeo⟩⟩

/-- An entry that is found is replaced. -/
theorem Shows.assignEntry (h : Shows e mem table) {k : Nat} (hlt : k < table.length)
    (hip : b.ip = table[k].ip) (hassign : Rcv.assignEntry e mem k b = .ok mem') :
    Shows e mem' (table.set k b) := by
  -- The entry `k` is new, the others and the count are as they were
  obtain ⟨hlength, hnew, hold, hcount⟩ := of_assignEntry hassign
  refine ⟨hlength.trans h.length, ?_, fun j n hn => ?_⟩
  · rw [List.length_set]
    exact hcount _ h.count
  · by_cases hj : j = k
    · -- The address was there before
      subst hj
      rw [List.getElem?_set_self hlt] at hn
      cases hn
      apply hnew
      rw [hip]
      exact (h.entry j _ (List.getElem?_eq_getElem hlt)).ip
    -- Another entry keeps its bytes
    · rw [List.getElem?_set_ne (Ne.symm hj)] at hn
      exact hold j n hj (h.entry j n hn)

/-- A new entry goes behind the others. -/
theorem Shows.appendEntry (h : Shows e mem table)
    (happend : Rcv.appendEntry e mem table.length (.ofNat table.length) b = .ok mem') :
    Shows e mem' (table ++ [b]) := by
  -- The address is written first, then the entry, and the count last
  obtain ⟨mem₂, hip, hrest⟩ := bind_eq_ok.mp happend
  obtain ⟨mem₃, hassign, hcount⟩ := bind_eq_ok.mp hrest
  obtain ⟨hlength, hnew, hold, -⟩ := of_assignEntry hassign
  have hone : (UInt32.ofNat table.length + 1 : UInt32) = .ofNat (table ++ [b]).length := by
    rw [List.length_append, List.length_singleton, UInt32.ofNat_add]
    rfl
  refine ⟨?_, ?_, fun j n hn => ?_⟩
  -- None of the three writes changes the length of the region
  · rw [length_of_store hcount, hlength, length_of_store hip, h.length]
  · rw [← hone]
    exact holds_of_store hcount
  · -- An entry lies behind the count
    suffices hentry : EntryAt e mem₃ j n from
      hentry.of_store hcount (.inr (by rw [width_u32, neighCountOffset]; omega))
    -- An old entry lies before the new one
    by_cases hj : j < table.length
    · rw [List.getElem?_append_left hj] at hn
      refine hold j n (by omega) ((h.entry j n hn).of_store hip (.inl ?_))
      rw [memberAt_ip]
      omega
    · -- Behind the old entries there is the new one only
      obtain ⟨hlt, -⟩ := List.getElem?_eq_some_iff.mp hn
      rw [List.length_append, List.length_singleton] at hlt
      obtain rfl : j = table.length := by omega
      rw [List.getElem?_append_right (Nat.le_refl _), Nat.sub_self] at hn
      cases hn
      exact hnew (holds_of_store hip)

/-- With room behind the last entry, a new one is written. -/
private theorem appendEntry_ok {k : Nat} (hroom : 29 + k * 32 ≤ mem.length) (count : UInt32)
    (b : SharedNeighbor) : ∃ mem', Rcv.appendEntry e mem k count b = .ok mem' := by
  obtain ⟨mem₂, hip⟩ : ∃ mem₂,
      store e.u32 mem (memberAt Rcv.neighborTable k 0) b.ip = .ok mem₂ :=
    store_ok (by rw [memberAt_ip, width_u32]; omega) b.ip
  have hlength := length_of_store hip
  obtain ⟨mem₃, hassign⟩ : ∃ mem₃, Rcv.assignEntry e mem₂ k b = .ok mem₃ :=
    assignEntry_ok (by omega) b
  have hlength' := (of_assignEntry hassign).1
  obtain ⟨mem₄, hcount⟩ : ∃ mem₄, store e.u32 mem₃ neighCountOffset (count + 1) = .ok mem₄ :=
    store_ok (by rw [neighCountOffset, width_u32]; omega) (count + 1)
  exact ⟨mem₄, bind_eq_ok.mpr ⟨mem₂, hip, bind_eq_ok.mpr ⟨mem₃, hassign, hcount⟩⟩⟩

/-- The run of `add_neighbor` behind the search. -/
private theorem addNeighbor_eq (h : Shows e mem table) {mem₁ : Memory}
    (hstatus : store u8Codec mem neighStatusOffset 1 = .ok mem₁) (b : SharedNeighbor) {k : Nat}
    (hk : table.findIdx (fun n => b.ip == n.ip) = k) :
    Rcv.addNeighbor e mem b =
      (if k < table.length then Rcv.assignEntry e mem₁ k b
        else Rcv.appendEntry e mem₁ table.length (.ofNat table.length) b) >>=
        fun mem => store u8Codec mem neighStatusOffset 0 := by
  -- Marking the region as busy leaves the table as it is
  have h₁ := h.of_store_status hstatus
  have hfind := findEntry_ok h₁.entry b.ip [] table rfl
  rw [List.length_nil, Nat.zero_add, hk] at hfind
  have hle : k ≤ table.length := hk ▸ List.findIdx_le_length
  simp only [Rcv.addNeighbor, hstatus, h₁.loadCount, h.toNat_count, hfind, bind, Except.bind]
  -- The loop has found the address, or it has come to the end of the table
  by_cases hlt : k < table.length
  · rw [if_pos hlt, if_pos hlt]
  · rw [if_neg hlt, if_neg hlt, show k = table.length by omega]

/-- What `add_neighbor` leaves in the memory, if it stays in it. -/
theorem Shows.addNeighbor (h : Shows e mem table) (hadd : Rcv.addNeighbor e mem b = .ok mem') :
    Shows e mem' (upsert b table) := by
  -- The status byte is written before and after, the table is changed in between
  obtain ⟨mem₁, hstatus, -⟩ := bind_eq_ok.mp hadd
  have h₁ := h.of_store_status hstatus
  rw [upsert_eq]
  generalize hk : table.findIdx (fun n => b.ip == n.ip) = k
  rw [addNeighbor_eq h hstatus b hk] at hadd
  obtain ⟨mem₂, hentry, hstatus'⟩ := bind_eq_ok.mp hadd
  by_cases hlt : k < table.length
  · -- The address is known: the loop has stopped at its entry
    have hip : b.ip = table[k].ip := by
      have hbeq := @List.findIdx_getElem _ (fun n => b.ip == n.ip) table (hk ▸ hlt)
      simpa only [hk, beq_iff_eq] using hbeq
    rw [if_pos hlt] at hentry ⊢
    exact (h₁.assignEntry hlt hip hentry).of_store_status hstatus'
  · -- The loop has come to the end
    rw [if_neg hlt] at hentry ⊢
    exact (h₁.appendEntry hentry).of_store_status hstatus'

/-- As long as there are at most 512 entries, `add_neighbor` stays in the memory. -/
private theorem addNeighbor_ok (h : Shows e mem table) (hroom : (upsert b table).length ≤ 512) :
    ∃ mem', Rcv.addNeighbor e mem b = .ok mem' := by
  have hstore : ∀ {mem : Memory} (s : UInt8), mem.length = 16384 →
      ∃ mem', store u8Codec mem neighStatusOffset s = .ok mem' := fun s hlen =>
    store_ok (by rw [hlen, neighStatusOffset, width_u8Codec]; omega) s
  -- The length of the memory is all that the stores ask for
  obtain ⟨mem₁, hstatus⟩ := hstore 1 h.length
  have h₁ := h.of_store_status hstatus
  have hlength : mem₁.length = 16384 := h₁.length
  rw [upsert_eq] at hroom
  generalize hk : table.findIdx (fun n => b.ip == n.ip) = k at hroom
  have heq := addNeighbor_eq h hstatus b hk
  by_cases hlt : k < table.length
  · rw [if_pos hlt, List.length_set] at hroom
    obtain ⟨mem₂, hassign⟩ : ∃ mem₂, Rcv.assignEntry e mem₁ k b = .ok mem₂ :=
      assignEntry_ok (by omega) b
    obtain ⟨mem₃, hstatus'⟩ := hstore 0 ((of_assignEntry hassign).1.trans hlength)
    rw [if_pos hlt] at heq
    exact ⟨mem₃, heq.trans (bind_eq_ok.mpr ⟨mem₂, hassign, hstatus'⟩)⟩
  · rw [if_neg hlt, List.length_append, List.length_singleton] at hroom
    obtain ⟨mem₂, happend⟩ : ∃ mem₂,
        Rcv.appendEntry e mem₁ table.length (.ofNat table.length) b = .ok mem₂ :=
      appendEntry_ok (by omega) _ b
    obtain ⟨mem₃, hstatus'⟩ := hstore 0 (h₁.appendEntry happend).length
    rw [if_neg hlt] at heq
    exact ⟨mem₃, heq.trans (bind_eq_ok.mpr ⟨mem₂, happend, hstatus'⟩)⟩

/-! ## Runs -/

/-- The table after the beacons. -/
def tableOf (beacons : List SharedNeighbor) : List SharedNeighbor :=
  beacons.foldl (fun table b => upsert b table) []

/-- The table after one beacon more. -/
private theorem tableOf_concat (beacons : List SharedNeighbor) (b : SharedNeighbor) :
    tableOf (beacons ++ [b]) = upsert b (tableOf beacons) := by
  rw [tableOf, List.foldl_append]
  rfl

/-- A beacon adds at most an entry. -/
private theorem length_le_upsert (b : SharedNeighbor) (table : List SharedNeighbor) :
    table.length ≤ (upsert b table).length := by
  rw [upsert_eq]
  split <;> simp

/-- The addresses of the table are those of the table before and that of the beacon. -/
private theorem mem_ip_upsert {ip : UInt32} :
    ip ∈ (upsert b table).map SharedNeighbor.ip ↔
      ip ∈ table.map SharedNeighbor.ip ∨ ip = b.ip := by
  induction table with
  | nil => simp [upsert]
  | cons n table ih =>
    rw [upsert]
    split
    case isTrue hip =>
      simp only [List.map_cons, List.mem_cons, hip]
      exact ⟨.inl, fun h => h.elim id .inl⟩
    case isFalse =>
      simp only [List.map_cons, List.mem_cons, ih]
      exact or_assoc.symm

/-- No address is there twice. -/
private theorem nodup_upsert (h : (table.map SharedNeighbor.ip).Nodup) (b : SharedNeighbor) :
    ((upsert b table).map SharedNeighbor.ip).Nodup := by
  induction table with
  | nil => simp [upsert]
  | cons n table ih =>
    rw [List.map_cons, List.nodup_cons] at h
    rw [upsert]
    split
    case isTrue hip =>
      rw [List.map_cons, hip, List.nodup_cons]
      exact h
    case isFalse hip =>
      rw [List.map_cons, List.nodup_cons, mem_ip_upsert]
      exact ⟨fun hmem => hmem.elim h.1 (Ne.symm hip), ih h.2⟩

/-- The table has one entry for each address. -/
private theorem length_tableOf (beacons : List SharedNeighbor) :
    (tableOf beacons).length = (beacons.map SharedNeighbor.ip).toFinset.card ∧
      ((tableOf beacons).map SharedNeighbor.ip).Nodup := by
  -- Beacon by beacon: no address twice, and the same addresses
  have hrun : ((tableOf beacons).map SharedNeighbor.ip).Nodup ∧
      ∀ ip, ip ∈ (tableOf beacons).map SharedNeighbor.ip ↔ ip ∈ beacons.map SharedNeighbor.ip := by
    induction beacons using List.reverseRecOn with
    | nil => exact ⟨List.nodup_nil, fun ip => Iff.rfl⟩
    | append_singleton beacons b ih =>
      rw [tableOf_concat]
      refine ⟨nodup_upsert ih.1 b, fun ip => ?_⟩
      rw [mem_ip_upsert, ih.2, List.map_append, List.mem_append]
      simp
  refine ⟨?_, hrun.1⟩
  -- Without duplicates the length is the number of elements
  rw [← List.length_map SharedNeighbor.ip, ← List.toFinset_card_of_nodup hrun.1]
  congr 1
  ext ip
  rw [List.mem_toFinset, List.mem_toFinset, hrun.2]

/-- An empty table at the start. -/
private theorem shows_nil (hlen : mem.length = sharedLength)
    (hstore : store e.u32 mem neighCountOffset 0 = .ok mem') : Shows e mem' [] :=
  ⟨(length_of_store hstore).trans hlen, holds_of_store hstore, by simp⟩

/-- The writer keeps the table, as far as it gets. -/
private theorem shows_of_receive (hlen : mem.length = sharedLength) {beacons : List SharedNeighbor}
    (h : Rcv.receive e mem beacons = .ok mem') : Shows e mem' (tableOf beacons) := by
  obtain ⟨mem₀, hstore, hfold⟩ := bind_eq_ok.mp h
  -- The invariant speaks of the beacons so far
  refine (Run.of_foldlM hfold).invariant_inputs
    (I := fun beacons mem => Shows e mem (tableOf beacons)) (shows_nil hlen hstore)
    fun beacons s b s' hs hstep => ?_
  rw [tableOf_concat]
  exact hs.addNeighbor hstep

/-- It gets through all beacons if there are at most 512 addresses. -/
private theorem receive_ok (hlen : mem.length = sharedLength) {beacons : List SharedNeighbor}
    (hroom : (tableOf beacons).length ≤ 512) : ∃ mem', Rcv.receive e mem beacons = .ok mem' := by
  obtain ⟨mem₀, hstore⟩ : ∃ mem₀, store e.u32 mem neighCountOffset 0 = .ok mem₀ :=
    store_ok (by rw [hlen, width_u32]; decide) 0
  have hreceive : ∀ bs, Rcv.receive e mem bs = bs.foldlM (Rcv.addNeighbor e) mem₀ := by
    intro bs
    rw [Rcv.receive, hstore]
    rfl
  induction beacons using List.reverseRecOn with
  | nil => exact ⟨mem₀, (hreceive []).trans rfl⟩
  | append_singleton beacons b ih =>
    -- The table never shrinks, so there was room before the last beacon too
    rw [tableOf_concat] at hroom
    obtain ⟨mem₁, hbefore⟩ := ih ((length_le_upsert b _).trans hroom)
    obtain ⟨mem₂, hadd⟩ := addNeighbor_ok (shows_of_receive hlen hbefore) hroom
    refine ⟨mem₂, ?_⟩
    rw [hreceive] at hbefore
    rw [hreceive, List.foldlM_append]
    refine bind_eq_ok.mpr ⟨mem₁, hbefore, ?_⟩
    rw [List.foldlM_cons]
    exact bind_eq_ok.mpr ⟨mem₂, hadd, rfl⟩

/-- The number of whole entries of the writer that fit behind `NEIGH_DATA_OFFSET`. -/
def wholeEntries : Nat := (sharedLength - neighDataOffset) / Member.sizeof Rcv.neighborTable

/-- After the beacons the writer has stayed in the memory, has counted no more entries than there
    is room for and has no address twice, and the kernel module reads the entries as they were
    written. -/
def InMemory (e : Kernel.Endian) (mem : Memory) (beacons : List SharedNeighbor) : Prop :=
  ∃ mem' count, Rcv.receive e mem beacons = .ok mem' ∧
    load e.u32 mem' neighCountOffset = .ok count ∧ count.toNat ≤ wholeEntries ∧
    ∃ table : List SharedNeighbor, table.length = count.toNat ∧
      (table.map SharedNeighbor.ip).Nodup ∧ ∀ k (hk : k < table.length),
        readEntry e Rcv.neighborTable mem' k = .ok table[k] ∧
        readEntry e Kernel.neighborTable mem' k = .ok table[k]

/-- As many senders as whole entries are always kept in the memory. -/
private theorem inMemory_of_le (hlen : mem.length = sharedLength) {beacons : List SharedNeighbor}
    (hroom : (beacons.map SharedNeighbor.ip).toFinset.card ≤ wholeEntries) :
    InMemory e mem beacons := by
  obtain ⟨hcard, hnodup⟩ := length_tableOf beacons
  have hwhole : wholeEntries = 511 := by decide
  obtain ⟨mem', hreceive⟩ : ∃ mem', Rcv.receive e mem beacons = .ok mem' :=
    receive_ok hlen (by omega)
  have hshows := shows_of_receive hlen hreceive
  refine ⟨mem', _, hreceive, hshows.loadCount, ?_, tableOf beacons, hshows.toNat_count.symm,
    hnodup, fun k hk => ?_⟩
  · rw [hshows.toNat_count, hcard]
    exact hroom
  · have hread := (hshows.entry k _ (List.getElem?_eq_getElem hk)).readEntry
    exact ⟨hread, (readEntry_kernel e mem' k).trans hread⟩

/-- More senders than whole entries cannot be kept. -/
private theorem card_le_of_inMemory (hlen : mem.length = sharedLength)
    {beacons : List SharedNeighbor} (h : InMemory e mem beacons) :
    (beacons.map SharedNeighbor.ip).toFinset.card ≤ wholeEntries := by
  obtain ⟨mem', count, hreceive, hload, hle, -⟩ := h
  have hshows := shows_of_receive hlen hreceive
  rw [hshows.loadCount] at hload
  cases hload
  rw [hshows.toNat_count, (length_tableOf beacons).1] at hle
  exact hle

/-- The writer keeps its promises all along exactly if at most 511 addresses send beacons. -/
theorem inMemory_iff (e : Kernel.Endian) (hlen : mem.length = sharedLength)
    (beacons : List SharedNeighbor) :
    (∀ seen, seen <+: beacons → InMemory e mem seen) ↔
      (beacons.map SharedNeighbor.ip).toFinset.card ≤ 511 := by
  constructor
  · intro h
    exact card_le_of_inMemory hlen (h beacons (List.prefix_refl _))
  · -- A prefix has no more addresses than the whole
    intro h seen hseen
    refine inMemory_of_le hlen (le_trans (Finset.card_le_card ?_) h)
    intro ip hip
    rw [List.mem_toFinset] at hip ⊢
    exact (hseen.map SharedNeighbor.ip).subset hip

/-- Memory that has never been written to. -/
def zeroPages : Memory := List.replicate sharedLength 0

/-- Beacons of `n` senders. -/
def senders (n : Nat) : List SharedNeighbor :=
  (List.range n).map fun i => ⟨.ofNat i, .zero, 0⟩

/-- The beacons of the example have different senders. -/
private theorem card_senders {n : Nat} (hn : n ≤ 1000) :
    ((senders n).map SharedNeighbor.ip).toFinset.card = n := by
  have hips : (senders n).map SharedNeighbor.ip = (List.range n).map UInt32.ofNat := by
    rw [senders, List.map_map]
    rfl
  -- Numbers below `2 ^ 32` stay different
  have hnodup : ((List.range n).map UInt32.ofNat).Nodup := by
    refine List.nodup_range.map_on fun i hi j hj heq => ?_
    rw [List.mem_range] at hi hj
    have hnat := congrArg UInt32.toNat heq
    rwa [UInt32.toNat_ofNat_of_lt' (by simp only [UInt32.size]; omega),
      UInt32.toNat_ofNat_of_lt' (by simp only [UInt32.size]; omega)] at hnat
  rw [hips, List.toFinset_card_of_nodup hnodup, List.length_map, List.length_range]

/-- Two senders, one of which sends twice. -/
theorem inMemory_iff_two :
    (∀ seen, seen <+: senders 2 ++ senders 1 → InMemory .little zeroPages seen) ↔
      ((senders 2 ++ senders 1).map SharedNeighbor.ip).toFinset.card ≤ 511 :=
  inMemory_iff .little (List.length_replicate ..) (senders 2 ++ senders 1)

/-- The entry of the 513th sender is not in the memory any more. -/
theorem writer_leaves_memory :
    (∀ mem', Rcv.receive .little zeroPages (senders 513) ≠ .ok mem') ∧
      ¬ InMemory .little zeroPages (senders 513) := by
  have hlen : zeroPages.length = sharedLength := List.length_replicate ..
  have hcard := card_senders (n := 513) (by decide)
  constructor
  · -- A table that is shown has no 513 entries
    intro mem' hreceive
    have hle := (shows_of_receive hlen hreceive).length_le
    rw [(length_tableOf _).1, hcard] at hle
    exact absurd hle (by decide)
  · intro h
    have hle := card_le_of_inMemory hlen h
    rw [hcard] at hle
    exact absurd hle (by decide)

end MapRelay
