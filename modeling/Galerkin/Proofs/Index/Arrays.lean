import Galerkin.Index.Grid
import Mathlib.Logic.Basic

/-! # Entries of arrays over a grid

An array over a grid keeps the components of its nodes one node after the other, so a component is found by
the number of its node and its own.

* **`foldl_append_eq`** — arrays that are joined one after the other;
* **`getElem?_flatMap`**, **`getElem?_flatMap_mul_add`** — an entry of a concatenation of lists of equal length;
* **`getElem?_foldl_setIfInBounds`** — values that are put one after the other;
* **`GridArray.get?_ofNodes`** — the components of an array that is filled node by node;
* **`GridArray.exists_storeNodes?_iff`**, **`GridArray.storeNodes?_spec`** — values that are stored node by node:
  whether there is room for them, and what the entries are. -/

namespace Galerkin

variable {α β : Type}

/-! ## (1) Concatenations and runs of values -/

/-- Arrays that are joined one after the other. -/
theorem foldl_append_eq (parts : List (Array β)) (start : Array β) :
    parts.foldl (· ++ ·) start = start ++ (parts.flatMap Array.toList).toArray := by
  induction parts generalizing start with
  | nil => exact (Array.append_empty ..).symm
  | cons part parts ih =>
    rw [List.foldl_cons, ih, List.flatMap_cons, ← List.append_toArray, Array.append_assoc]

/-- A concatenation of lists of length `n`. -/
theorem length_flatMap_of_length {xs : List α} {f : α → List β} {n : Nat}
    (hlen : ∀ x ∈ xs, (f x).length = n) : (xs.flatMap f).length = xs.length * n := by
  induction xs with
  | nil => rw [List.flatMap_nil, List.length_nil, List.length_nil, Nat.zero_mul]
  | cons x xs ih =>
    rw [List.flatMap_cons, List.length_append, hlen x (List.mem_cons_self ..),
      ih fun y hy => hlen y (List.mem_cons_of_mem _ hy), List.length_cons, Nat.succ_mul, Nat.add_comm]

/-- **An entry of a concatenation** of lists of length `n`, by quotient and remainder. -/
theorem getElem?_flatMap {xs : List α} {f : α → List β} {n : Nat} (hn : 0 < n)
    (hlen : ∀ x ∈ xs, (f x).length = n) (q : Nat) :
    (xs.flatMap f)[q]? = xs[q / n]?.bind fun x => (f x)[q % n]? := by
  induction xs generalizing q with
  | nil => rfl
  | cons x xs ih =>
    have hx := hlen x (List.mem_cons_self ..)
    rw [List.flatMap_cons]
    by_cases hq : q < n
    · rw [List.getElem?_append_left (by omega), Nat.div_eq_of_lt hq, Nat.mod_eq_of_lt hq]
      rfl
    · have hle : n ≤ q := Nat.le_of_not_lt hq
      have hdiv : q / n = (q - n) / n + 1 := Nat.div_eq_sub_div hn hle
      have hmod : q % n = (q - n) % n := Nat.mod_eq_sub_mod hle
      rw [List.getElem?_append_right (by omega), hx,
        ih (fun y hy => hlen y (List.mem_cons_of_mem _ hy)), hdiv, hmod, List.getElem?_cons_succ]

/-- **An entry of one of the lists** of a concatenation of lists of length `n`. -/
theorem getElem?_flatMap_mul_add {xs : List α} {f : α → List β} {n k i : Nat}
    (hlen : ∀ x ∈ xs, (f x).length = n) (hi : i < n) :
    (xs.flatMap f)[n * k + i]? = xs[k]?.bind fun x => (f x)[i]? := by
  have hn : 0 < n := Nat.zero_lt_of_lt hi
  have hdiv : (n * k + i) / n = k := by rw [Nat.mul_add_div hn, Nat.div_eq_of_lt hi, Nat.add_zero]
  have hmod : (n * k + i) % n = i := by rw [Nat.mul_add_mod, Nat.mod_eq_of_lt hi]
  rw [getElem?_flatMap hn hlen, hdiv, hmod]

/-- Values that are put one after the other, from some entry on. -/
theorem getElem?_foldl_setIfInBounds (values : List α) (entries : Array α) (start n k : Nat) :
    ((values.zipIdx n).foldl (fun entries (x, s) => entries.setIfInBounds (start + s) x) entries)[k]? =
      if start + n ≤ k ∧ k < start + n + values.length ∧ k < entries.size then values[k - (start + n)]?
      else entries[k]? := by
  induction values generalizing entries n with
  | nil => simp only [List.zipIdx_nil, List.foldl_nil, List.length_nil]; rw [if_neg (by omega)]
  | cons x values ih =>
    rw [List.zipIdx_cons, List.foldl_cons, ih, Array.getElem?_setIfInBounds, Array.size_setIfInBounds,
      List.length_cons]
    -- The first value is put at `start + n`, the others behind it.
    by_cases hfirst : start + n = k
    · rw [if_neg (by omega), if_pos hfirst]
      by_cases hin : start + n < entries.size
      · rw [if_pos hin, if_pos (by omega), hfirst, Nat.sub_self, List.getElem?_cons_zero]
      · rw [if_neg hin, if_neg (by omega), Array.getElem?_eq_none (by omega)]
    · rw [if_neg hfirst]
      by_cases hlater : start + (n + 1) ≤ k ∧ k < start + (n + 1) + values.length ∧ k < entries.size
      · have hindex : k - (start + n) = k - (start + (n + 1)) + 1 := by omega
        rw [if_pos hlater, if_pos (by omega), hindex, List.getElem?_cons_succ]
      · rw [if_neg hlater, if_neg (by omega)]

/-- Putting values leaves the number of entries. -/
theorem size_foldl_setIfInBounds (start : Nat) (items : List (α × Nat)) (entries : Array α) :
    (items.foldl (fun entries (x, c) => entries.setIfInBounds (start + c) x) entries).size =
      entries.size := by
  induction items generalizing entries with
  | nil => rfl
  | cons item items ih => exact (ih _).trans Array.size_setIfInBounds

namespace GridArray

/-! ## (2) Arrays filled node by node -/

variable {shape : List Nat} {components : Nat} {nodes : List (Array α)}

/-- The entries of an array are those of its nodes. -/
theorem data_ofNodes (shape : List Nat) (components : Nat) (nodes : List (Array α)) :
    (ofNodes shape components nodes).data = (nodes.flatMap Array.toList).toArray := by
  rw [ofNodes, foldl_append_eq, Array.empty_append]

/-- An array holds values if one of its nodes does. -/
theorem ofNodes_not_empty {node : Array α} (hnode : node ∈ nodes) (hpos : 0 < node.size) :
    (ofNodes shape components nodes).isEmpty = false := by
  have hmem : node[0] ∈ nodes.flatMap Array.toList :=
    List.mem_flatMap_of_mem hnode (Array.mem_toList_iff.mpr (Array.getElem_mem hpos))
  rw [isEmpty, data_ofNodes, List.isEmpty_toArray, List.isEmpty_eq_false_iff]
  exact List.ne_nil_of_mem hmem

/-- It has as many entries as its nodes have components. -/
theorem size_ofNodes (h : ∀ node ∈ nodes, node.size = components) :
    (ofNodes shape components nodes).data.size = nodes.length * components := by
  rw [data_ofNodes, List.size_toArray]
  exact length_flatMap_of_length fun node hnode => Array.length_toList.trans (h node hnode)

/-- **The component of a node** is found by both numbers. -/
theorem get?_ofNodes (h : ∀ node ∈ nodes, node.size = components) (n : Nat) {c : Nat}
    (hc : c < components) :
    (ofNodes shape components nodes).get? n c = nodes[n]?.bind fun node => node[c]? := by
  have hpos : 0 < components := Nat.zero_lt_of_lt hc
  have hdiv : (n * components + c) / components = n := by
    rw [Nat.add_comm, Nat.add_mul_div_right _ _ hpos, Nat.div_eq_of_lt hc, Nat.zero_add]
  have hmod : (n * components + c) % components = c := by
    rw [Nat.add_comm, Nat.add_mul_mod_self_right, Nat.mod_eq_of_lt hc]
  have hentry := getElem?_flatMap (f := Array.toList) hpos
    (fun node hnode => Array.length_toList.trans (h node hnode)) (n * components + c)
  rw [hdiv, hmod] at hentry
  rw [get?, data_ofNodes, List.getElem?_toArray]
  refine hentry.trans (congrArg nodes[n]?.bind (funext fun node => ?_))
  exact Array.getElem?_toList

/-! ## (3) Values stored node by node -/

/-- Arrays that differ in the values of their entries only. -/
structure SameLayout (g g' : GridArray α) : Prop where
  shape : g'.shape = g.shape
  nodes : g'.nodes = g.nodes
  components : g'.components = g.components
  size : g'.data.size = g.data.size

/-- An array has its own layout. -/
theorem SameLayout.refl (g : GridArray α) : g.SameLayout g := ⟨rfl, rfl, rfl, rfl⟩

variable {g g' g'' : GridArray α} {values : Array α} {width : Nat}

/-- The layout is kept by one change after the other. -/
theorem SameLayout.trans (h : g.SameLayout g') (h' : g'.SameLayout g'') : g.SameLayout g'' :=
  ⟨h'.shape.trans h.shape, h'.nodes.trans h.nodes, h'.components.trans h.components,
    h'.size.trans h.size⟩

/-- **Values are stored if there is room** for all of them. -/
theorem exists_store?_iff {n : Nat} :
    (∃ g', g.store? n values = some g') ↔ n * g.components + values.size ≤ g.data.size := by
  simp only [store?, Option.ite_none_right_eq_some, Option.some.injEq, exists_and_left, exists_eq', and_true]

/-- **What is stored at a node:** the values there, and nothing else changes. -/
theorem store?_spec {n : Nat} (h : g.store? n values = some g') (hwidth : values.size ≤ g.components) :
    g.SameLayout g' ∧ ∀ m c, c < g.components →
      g'.get? m c = if m = n ∧ c < values.size then values[c]? else g.get? m c := by
  rw [store?, Option.ite_none_right_eq_some] at h
  obtain ⟨hroom, h⟩ := h
  obtain rfl := Option.some.inj h
  refine ⟨⟨rfl, rfl, rfl, size_foldl_setIfInBounds ..⟩, fun m c hc => ?_⟩
  show (values.toList.zipIdx.foldl (fun data (x, c) => data.setIfInBounds (n * g.components + c) x)
    g.data)[m * g.components + c]? = _
  rw [getElem?_foldl_setIfInBounds, Array.length_toList, Array.getElem?_toList, Nat.add_zero]
  rcases Nat.lt_trichotomy m n with hlt | rfl | hgt
  · -- A node before ends where the values start, or earlier.
    have hend := Nat.mul_le_mul_right g.components (Nat.succ_le_of_lt hlt)
    rw [Nat.succ_mul] at hend
    rw [if_neg (by omega), if_neg (by omega)]
    rfl
  · by_cases hin : c < values.size
    · rw [if_pos (by omega), if_pos ⟨rfl, hin⟩, Nat.add_sub_cancel_left]
    · rw [if_neg (by omega), if_neg fun h => hin h.2]
      rfl
  · -- A node behind starts where the components of the node end, or later.
    have hend := Nat.mul_le_mul_right g.components (Nat.succ_le_of_lt hgt)
    rw [Nat.succ_mul] at hend
    rw [if_neg (by omega), if_neg (by omega)]
    rfl

/-- **Values are stored at some nodes if there is room at each of them.** -/
theorem exists_foldlM_store?_iff {items : List (Array α × Nat)} :
    (∃ g', items.foldlM (fun g (values, n) => g.store? n values) g = some g') ↔
      ∀ item ∈ items, item.2 * g.components + item.1.size ≤ g.data.size := by
  induction items generalizing g with
  | nil => exact ⟨fun _ _ h => (nomatch h), fun _ => ⟨g, rfl⟩⟩
  | cons item items ih =>
    rw [List.forall_mem_cons, ← exists_store?_iff]
    cases hstore : g.store? item.2 item.1 with
    | none =>
      simp only [List.foldlM_cons, hstore, reduceCtorEq, exists_false, false_and, iff_false, not_exists]
      exact fun _ h => nomatch h
    | some stored =>
      -- The layout is that of the array before.
      have hlayout : g.SameLayout stored := by
        rw [store?, Option.ite_none_right_eq_some] at hstore
        obtain rfl := Option.some.inj hstore.2
        exact ⟨rfl, rfl, rfl, size_foldl_setIfInBounds ..⟩
      have hrest := ih (g := stored)
      rw [hlayout.components, hlayout.size] at hrest
      simp only [List.foldlM_cons, hstore, Option.some.injEq, exists_eq', true_and]
      exact hrest

/-- Values of equal number that are stored at nodes in a row, from node `k` on. -/
theorem storeNodes?_spec_from (hwidth : ∀ node ∈ nodes, node.size = width) (hle : width ≤ g.components) {k : Nat}
    (h : (nodes.zipIdx k).foldlM (fun g (values, n) => g.store? n values) g = some g') :
    g.SameLayout g' ∧ ∀ n c, c < g.components → g'.get? n c =
      if k ≤ n ∧ n < k + nodes.length ∧ c < width then nodes[n - k]?.bind fun node => node[c]?
      else g.get? n c := by
  induction nodes generalizing g k with
  | nil =>
    obtain rfl := Option.some.inj h
    refine ⟨.refl _, fun n c _ => ?_⟩
    rw [if_neg fun hn => absurd hn.2.1 (Nat.not_lt_of_le hn.1)]
  | cons node nodes ih =>
    obtain ⟨hnode, hnodes⟩ := List.forall_mem_cons.mp hwidth
    rw [List.zipIdx_cons, List.foldlM_cons] at h
    obtain ⟨stored, hstored, h⟩ := Option.bind_eq_some_iff.mp h
    obtain ⟨hfirst, hget⟩ := store?_spec hstored (hnode ▸ hle)
    obtain ⟨hrest, hgets⟩ := ih hnodes (hfirst.components ▸ hle) h
    refine ⟨hfirst.trans hrest, fun n c hc => ?_⟩
    rw [hgets n c (hfirst.components ▸ hc), hget n c hc, List.length_cons, hnode]
    -- The first node is `k`, the others are behind it.
    rcases Nat.lt_trichotomy n k with hlt | rfl | hgt
    · rw [if_neg (by omega), if_neg (by omega), if_neg (by omega)]
    · by_cases hcw : c < width
      · rw [if_neg (by omega), if_pos ⟨rfl, hcw⟩, if_pos (by omega), Nat.sub_self]
        rfl
      · rw [if_neg (by omega), if_neg (by omega), if_neg (by omega)]
    · have hindex : n - k = n - (k + 1) + 1 := by omega
      rw [hindex, List.getElem?_cons_succ, if_neg (c := n = k ∧ c < width) (by omega)]
      exact if_congr (by omega) rfl rfl

/-- **What is stored at the nodes of an array,** in as many components of each. -/
theorem storeNodes?_spec (hwidth : ∀ node ∈ nodes, node.size = width) (hle : width ≤ g.components)
    (h : g.storeNodes? nodes = some g') :
    g.SameLayout g' ∧ ∀ n < nodes.length, ∀ c < g.components, g'.get? n c =
      if c < width then nodes[n]?.bind fun node => node[c]? else g.get? n c := by
  obtain ⟨hlayout, hget⟩ := storeNodes?_spec_from hwidth hle h
  refine ⟨hlayout, fun n hn c hc => ?_⟩
  rw [hget n c hc, Nat.sub_zero]
  exact if_congr (by omega) rfl rfl

/-- **There is room at all nodes of an array** if there is at the last one: if each has as many components
as it gets values. -/
theorem exists_storeNodes?_iff (hwidth : ∀ node ∈ nodes, node.size = width)
    (hsize : g.data.size = nodes.length * g.components) :
    (∃ g', g.storeNodes? nodes = some g') ↔ nodes = [] ∨ width ≤ g.components := by
  rw [storeNodes?, exists_foldlM_store?_iff, hsize]
  constructor
  · intro hroom
    refine or_iff_not_imp_left.mpr fun hne => ?_
    have hpos := List.length_pos_iff.mpr hne
    have hlast : nodes.length - 1 < nodes.length := Nat.sub_lt hpos Nat.one_pos
    have hmem : (nodes[nodes.length - 1], nodes.length - 1) ∈ nodes.zipIdx :=
      List.mem_zipIdx_iff_getElem?.mpr (List.getElem?_eq_getElem hlast)
    have hend := hroom _ hmem
    simp only [hwidth _ (List.getElem_mem hlast)] at hend
    have hcount : nodes.length * g.components = (nodes.length - 1) * g.components + g.components := by
      rw [← Nat.succ_mul, Nat.succ_eq_add_one, Nat.sub_add_cancel hpos]
    omega
  · rintro (rfl | hle) ⟨node, n⟩ hmem
    · cases hmem
    · have hn := List.mem_zipIdx_iff_getElem?.mp hmem
      have hlt := (List.getElem?_eq_some_iff.mp hn).1
      have hend := Nat.mul_le_mul_right g.components (Nat.succ_le_of_lt hlt)
      rw [Nat.succ_mul] at hend
      rw [hwidth node (List.mem_of_getElem? hn)]
      exact Nat.le_trans (Nat.add_le_add_left hle _) hend

end GridArray

end Galerkin
