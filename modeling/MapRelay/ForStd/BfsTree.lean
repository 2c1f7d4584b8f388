import Mathlib.Data.List.Induction
import MapRelay.ForStd.Bfs

/-!
# Shortest walks of a breadth-first search

A breadth-first search whose queue is never shortened leaves in it a tree: every entry but the
first has its parent further in front, and the parents are in order. So the walks along the
parents get longer towards the end of the queue, and no walk to a vertex is shorter than the one
along the parents.
-/

namespace ForStd.BfsTree

variable {V E : Type}

/-! ## Walks -/

/-- The edges `es` lead from `u` to `v`. -/
def Walk (out : V → List E) (dst : E → V) : V → List E → V → Prop
  | u, [], v => u = v
  | u, e :: es, v => e ∈ out u ∧ Walk out dst (dst e) es v

variable {out : V → List E} {dst : E → V}

/-- A walk with its last edge. -/
theorem walk_append {u v : V} {es : List E} {e : E} :
    Walk out dst u (es ++ [e]) v ↔ ∃ w, Walk out dst u es w ∧ e ∈ out w ∧ dst e = v := by
  induction es generalizing u with
  | nil => simp [Walk]
  | cons f es ih =>
    rw [List.cons_append, Walk, ih]
    constructor
    · rintro ⟨hf, w, hw, he⟩
      exact ⟨w, ⟨hf, hw⟩, he⟩
    · rintro ⟨w, ⟨hf, hw⟩, he⟩
      exact ⟨hf, w, hw, he⟩

/-! ## The queue -/

/-- An entry of the queue: a vertex, and the place of its parent with the edge from there. -/
structure Entry (V E : Type) where
  v : V
  parent : Option (Nat × E)

/-- The queue is a tree that grows from `source` in the order of the search. -/
structure Tree (out : V → List E) (dst : E → V) (source : V) (q : List (Entry V E)) : Prop where
  root : q[0]? = some ⟨source, none⟩
  linked : ∀ j x, q[j + 1]? = some x → ∃ a e y, x = ⟨dst e, some (a, e)⟩ ∧ a ≤ j ∧
    q[a]? = some y ∧ e ∈ out y.v
  mono : ∀ {i j : Nat} {x y : Entry V E} {a b : Nat} {e f : E}, i ≤ j → q[i]? = some x →
    q[j]? = some y → x.parent = some (a, e) → y.parent = some (b, f) → a ≤ b
  nodup : (q.map Entry.v).Nodup

/-- The edges on the way along the parents to the entry at a place. -/
inductive PathTo (q : List (Entry V E)) : Nat → List E → Prop where
  | root : PathTo q 0 []
  | step {j a : Nat} {v : V} {e : E} {es : List E} (h : q[j + 1]? = some ⟨v, some (a, e)⟩)
      (hp : PathTo q a es) : PathTo q (j + 1) (es ++ [e])

variable {source : V} {q : List (Entry V E)}

/-- The parents leave one path only. -/
theorem PathTo.unique {i : Nat} {es fs : List E} (hp : PathTo q i es) (hq : PathTo q i fs) :
    es = fs := by
  induction hp generalizing fs with
  | root =>
    cases hq
    rfl
  | step h _ ih =>
    cases hq with
    | step h' hq' =>
      obtain ⟨-, hparent⟩ := Entry.mk.inj (Option.some.inj (h.symm.trans h'))
      obtain ⟨rfl, rfl⟩ := Prod.mk.inj (Option.some.inj hparent)
      rw [ih hq']

namespace Tree

/-- Each entry has a path from the source. -/
theorem exists_pathTo (h : Tree out dst source q) {i : Nat} {x : Entry V E}
    (hx : q[i]? = some x) : ∃ es, PathTo q i es := by
  induction i using Nat.strongRecOn generalizing x with
  | ind i ih =>
    cases i with
    | zero => exact ⟨[], .root⟩
    | succ j =>
      obtain ⟨a, e, y, rfl, ha, hy, -⟩ := h.linked j x hx
      obtain ⟨es, hes⟩ := ih a (Nat.lt_succ_of_le ha) hy
      exact ⟨es ++ [e], .step hx hes⟩

/-- The way along the parents is a walk. -/
theorem walk_of_pathTo (h : Tree out dst source q) {i : Nat} {es : List E} (hp : PathTo q i es)
    {x : Entry V E} (hx : q[i]? = some x) : Walk out dst source es x.v := by
  induction hp generalizing x with
  | root =>
    obtain rfl := Option.some.inj (h.root.symm.trans hx)
    rfl
  | @step j a v e es hstep _ ih =>
    obtain ⟨a', e', y, hentry, -, hy, he⟩ := h.linked j _ hstep
    obtain ⟨-, hparent⟩ := Entry.mk.inj hentry
    obtain ⟨rfl, rfl⟩ := Prod.mk.inj (Option.some.inj hparent)
    rw [hx] at hstep
    obtain rfl : x = ⟨dst e, some (a, e)⟩ := by rw [Option.some.inj hstep, hentry]
    exact walk_append.mpr ⟨y.v, ih hy, he, rfl⟩

/-- The ways along the parents get longer towards the end of the queue. -/
theorem length_mono (h : Tree out dst source q) {i j : Nat} {es fs : List E}
    (hp : PathTo q i es) (hq : PathTo q j fs) (hij : i ≤ j) : es.length ≤ fs.length := by
  -- From parent to parent, which are in order as the entries are
  induction hp generalizing j fs with
  | root => exact Nat.zero_le _
  | step hx _ ih =>
    cases hq with
    | root => omega
    | step hy hq' =>
      have hle := ih hq' (h.mono hij hx hy rfl rfl)
      simp only [List.length_append, List.length_singleton]
      omega

/-- No vertex has two entries. -/
theorem place_unique (h : Tree out dst source q) {i j : Nat} {x y : Entry V E}
    (hx : q[i]? = some x) (hy : q[j]? = some y) (hv : x.v = y.v) : i = j := by
  have hxv : (q.map Entry.v)[i]? = some x.v := by rw [List.getElem?_map, hx]; rfl
  have hyv : (q.map Entry.v)[j]? = some y.v := by rw [List.getElem?_map, hy]; rfl
  obtain ⟨hi, -⟩ := List.getElem?_eq_some_iff.mp hxv
  exact (List.getElem?_inj hi h.nodup).mp (by rw [hxv, hyv, hv])

end Tree

/-! ## Expanding the queue -/

/-- Every end of an edge from an entry before `index` is in the queue, and was put there by that
    entry at the latest. -/
def Expanded (out : V → List E) (dst : E → V) (q : List (Entry V E)) (index : Nat) : Prop :=
  ∀ ⦃k : Nat⦄ ⦃x : Entry V E⦄ ⦃e : E⦄, k < index → q[k]? = some x → e ∈ out x.v →
    ∃ (j : Nat) (y : Entry V E),
      q[j]? = some y ∧ y.v = dst e ∧ ∀ a f, y.parent = some (a, f) → a ≤ k

/-- A short walk leads to an entry whose way along the parents is no longer. -/
theorem Tree.pathTo_of_walk (h : Tree out dst source q) {index : Nat}
    (hexp : Expanded out dst q index) {ps : List E} (hp : PathTo q index ps) {es : List E} {v : V}
    (hwalk : Walk out dst source es v) (hlen : es.length ≤ ps.length) :
    ∃ j x fs, q[j]? = some x ∧ x.v = v ∧ PathTo q j fs ∧ fs.length ≤ es.length := by
  induction es using List.reverseRecOn generalizing v with
  | nil =>
    obtain rfl : source = v := hwalk
    exact ⟨0, _, [], h.root, rfl, .root, Nat.le_refl _⟩
  | append_singleton es e ih =>
    obtain ⟨w, hw, he, rfl⟩ := walk_append.mp hwalk
    rw [List.length_append, List.length_singleton] at hlen
    obtain ⟨k, x, fs, hx, rfl, hk, hle⟩ := ih hw (by omega)
    -- The entry is nearer than the one at `index`, so that it has been expanded
    have hlt : k < index := by
      by_contra hge
      have := h.length_mono hp hk (by omega)
      omega
    obtain ⟨j, y, hy, hv, hparent⟩ := hexp hlt hx he
    cases j with
    | zero =>
      -- The walk has come back to the start
      obtain rfl := Option.some.inj (h.root.symm.trans hy)
      exact ⟨0, _, [], h.root, hv, .root, Nat.zero_le _⟩
    | succ j =>
      -- The end of `e` was found at `k` or before, where the ways are no longer
      obtain ⟨a, f, z, rfl, -, hz, -⟩ := h.linked j y hy
      obtain ⟨as, has⟩ := h.exists_pathTo hz
      have hshort := h.length_mono has hk (hparent a f rfl)
      refine ⟨j + 1, _, as ++ [f], hy, hv, .step hy has, ?_⟩
      simp only [List.length_append, List.length_singleton]
      omega

/-- No walk is shorter than the way along the parents to an entry that is found from `index`. -/
theorem Tree.shortest (h : Tree out dst source q) {index t : Nat}
    (hexp : Expanded out dst q index) {v : V} {e : E} (ht : q[t]? = some ⟨v, some (index, e)⟩)
    {es fs : List E} (hp : PathTo q t es) (hwalk : Walk out dst source fs v) :
    es.length ≤ fs.length := by
  by_contra hlt
  cases hp with
  | root => simp at hlt
  | step hx hps =>
    obtain ⟨-, hparent⟩ := Entry.mk.inj (Option.some.inj (ht.symm.trans hx))
    obtain ⟨rfl, rfl⟩ := Prod.mk.inj (Option.some.inj hparent)
    simp only [List.length_append, List.length_singleton] at hlt
    obtain ⟨j, x, gs, hj, hv, hgs, hle⟩ := h.pathTo_of_walk hexp hps hwalk (by omega)
    -- It is the entry itself, whose way would be too short
    obtain rfl := h.place_unique hj ht hv
    rw [hgs.unique (.step hx hps), List.length_append, List.length_singleton] at hle
    omega

/-- A walk does not leave a queue of which every entry has been expanded. -/
theorem Tree.mem_of_walk (h : Tree out dst source q) (hexp : Expanded out dst q q.length)
    {es : List E} {v : V} (hwalk : Walk out dst source es v) : v ∈ q.map Entry.v := by
  induction es using List.reverseRecOn generalizing v with
  | nil =>
    obtain rfl : source = v := hwalk
    exact List.mem_map.mpr ⟨_, List.mem_of_getElem? h.root, rfl⟩
  | append_singleton es e ih =>
    obtain ⟨w, hw, he, rfl⟩ := walk_append.mp hwalk
    obtain ⟨x, hx, rfl⟩ := List.mem_map.mp (ih hw)
    obtain ⟨k, hk⟩ := List.mem_iff_getElem?.mp hx
    obtain ⟨j, y, hy, hv, -⟩ := hexp (List.getElem?_eq_some_iff.mp hk).1 hk he
    exact hv ▸ List.mem_map_of_mem (List.mem_of_getElem? hy)

/-! ## A new entry -/

/-- No entry has been found from behind `index`. -/
def Below (q : List (Entry V E)) (index : Nat) : Prop :=
  ∀ x ∈ q, ∀ a e, x.parent = some (a, e) → a ≤ index

/-- The source alone is a tree. -/
theorem Tree.singleton (source : V) : Tree out dst source [⟨source, none⟩] where
  root := rfl
  linked j x hx := by cases hx
  mono := by
    intro i j x y a b e f _ hx _ hparent _
    obtain rfl := List.mem_singleton.mp (List.mem_of_getElem? hx)
    cases hparent
  nodup := List.nodup_singleton _

/-- A vertex that is new is put at the end, found from the entry that is being expanded. -/
theorem Tree.append (h : Tree out dst source q) {index : Nat} (hbelow : Below q index)
    {y : Entry V E} (hy : q[index]? = some y) {e : E} (he : e ∈ out y.v)
    (hnew : dst e ∉ q.map Entry.v) : Tree out dst source (q ++ [⟨dst e, some (index, e)⟩]) := by
  have hold : ∀ {i : Nat} {x : Entry V E}, q[i]? = some x →
      (q ++ [(⟨dst e, some (index, e)⟩ : Entry V E)])[i]? = some x := fun hx => by
    rw [List.getElem?_append_left (List.getElem?_eq_some_iff.mp hx).1, hx]
  have hindex := (List.getElem?_eq_some_iff.mp hy).1
  refine ⟨hold h.root, fun j x hx => ?_, ?_, ?_⟩
  · rcases Bfs.getElem?_concat_cases hx with hx | ⟨hj, rfl⟩
    · obtain ⟨a, f, z, rfl, ha, hz, hf⟩ := h.linked j x hx
      exact ⟨a, f, z, rfl, ha, hold hz, hf⟩
    · exact ⟨index, e, y, rfl, by omega, hold hy, he⟩
  · intro i j x z a b f k hij hx hz hxa hzb
    rcases Bfs.getElem?_concat_cases hx with hx | ⟨rfl, rfl⟩ <;>
      rcases Bfs.getElem?_concat_cases hz with hz | ⟨rfl, rfl⟩
    · exact h.mono hij hx hz hxa hzb
    · -- No parent is behind the entry that is being expanded
      cases hzb
      exact hbelow x (List.mem_of_getElem? hx) a f hxa
    · have := (List.getElem?_eq_some_iff.mp hz).1
      omega
    · cases hxa
      cases hzb
      exact Nat.le_refl _
  · rw [List.map_append, List.map_singleton, ← List.concat_eq_append]
    exact .concat hnew h.nodup

/-- What is below an entry is below the later ones. -/
theorem Below.mono {index index' : Nat} (h : Below q index) (hle : index ≤ index') :
    Below q index' :=
  fun x hx a e hparent => Nat.le_trans (h x hx a e hparent) hle

/-- A vertex that is found from an entry is below it. -/
theorem Below.append {index : Nat} (h : Below q index) (v : V) (e : E) :
    Below (q ++ [⟨v, some (index, e)⟩]) index := by
  intro x hx a f hparent
  rcases List.mem_append.mp hx with hx | hx
  · exact h x hx a f hparent
  · obtain rfl := List.mem_singleton.mp hx
    cases hparent
    exact Nat.le_refl _

/-- What has been expanded stays so when a vertex is appended. -/
theorem Expanded.append {index : Nat} (h : Expanded out dst q index) (hle : index ≤ q.length)
    (x : Entry V E) : Expanded out dst (q ++ [x]) index := by
  intro k y e hk hy he
  rw [List.getElem?_append_left (by omega)] at hy
  obtain ⟨j, z, hz, hv, hparent⟩ := h hk hy he
  refine ⟨j, z, ?_, hv, hparent⟩
  rw [List.getElem?_append_left (List.getElem?_eq_some_iff.mp hz).1, hz]

/-- The entry at `index` has been expanded once the ends of all its edges are in the queue. -/
theorem Expanded.succ {index : Nat} (h : Expanded out dst q index) (hbelow : Below q index)
    {x : Entry V E} (hx : q[index]? = some x) (hall : ∀ e ∈ out x.v, dst e ∈ q.map Entry.v) :
    Expanded out dst q (index + 1) := by
  intro k y e hk hy he
  by_cases hlt : k < index
  · exact h hlt hy he
  · -- Whatever the parent of the end of `e` is, it is not behind `index`
    obtain rfl : k = index := by omega
    obtain rfl := Option.some.inj (hx.symm.trans hy)
    obtain ⟨z, hz, hv⟩ := List.mem_map.mp (hall e he)
    obtain ⟨j, hj⟩ := List.mem_iff_getElem?.mp hz
    exact ⟨j, z, hj, hv, hbelow z hz⟩

end ForStd.BfsTree
