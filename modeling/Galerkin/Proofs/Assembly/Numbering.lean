import Galerkin.Proofs.Assembly.Entries
import Galerkin.Proofs.Index.Numbers

/-! # Numbers of unknowns

An unknown is a basis function with a component. Global indices number the unknowns of a space in
lexicographic order, without a gap and without wrap-around as long as the number of unknowns is a word.

* **`Layout.Names`** — an index and a component that name an unknown;
* **`Assembler.toLinearIndex_eq_ok`**, **`Assembler.fromLinearIndex_eq_ok`** — what the two maps return;
* **`Assembler.outOfRange_toLinearIndex_iff`**, **`Assembler.outOfRange_fromLinearIndex_iff`** — when they
  fail;
* **`Assembler.globalIndices_bijective`** — they are inverse to each other, and keep the order. -/

namespace Galerkin

variable {α : Type}

/-! ## (1) Unknowns of a layout -/

namespace Layout

/-- The number of unknowns, exactly. -/
def size (l : Layout) : Nat := MultiIndex.product l.dofs * l.components

/-- **An index and a component that name an unknown:** a basis function on every axis, and one of the
components. -/
structure Names (l : Layout) (index : List Nat) (component : Int) : Prop where
  index_lt : List.Forall₂ (· < ·) index l.dofs
  component_nonneg : 0 ≤ component
  component_lt : component < (l.components : Int)

/-- The number of an unknown among those of its space. -/
def position (l : Layout) (index : List Nat) (component : Nat) : Nat :=
  MultiIndex.linearIndex index l.dofs * l.components + component

variable {l : Layout} {index index' : List Nat} {r s k : Nat}

/-- Components that are natural numbers. -/
theorem names_natCast : l.Names index r ↔ List.Forall₂ (· < ·) index l.dofs ∧ r < l.components :=
  ⟨fun h => ⟨h.index_lt, Int.ofNat_lt.mp h.component_lt⟩,
    fun ⟨hindex, hr⟩ => ⟨hindex, Int.natCast_nonneg r, Int.ofNat_lt.mpr hr⟩⟩

/-- **The component is one more index,** which varies fastest. -/
theorem position_eq_linearIndex (hlen : index.length = l.dofs.length) (r : Nat) :
    l.position index r = MultiIndex.linearIndex (index ++ [r]) (l.dofs ++ [l.components]) :=
  (MultiIndex.linearIndex_concat hlen r l.components).symm

/-- The number of unknowns is the product of all extents, the components included. -/
theorem size_eq_product (l : Layout) : l.size = MultiIndex.product (l.dofs ++ [l.components]) :=
  (MultiIndex.product_concat l.dofs l.components).symm

/-- An unknown has a number below that of all unknowns. -/
theorem Names.position_lt (h : l.Names index r) : l.position index r < l.size :=
  MultiIndex.unknown_lt h.index_lt (names_natCast.mp h).2

/-- **Unknowns in lexicographic order have numbers in order.** -/
theorem Names.lt_iff (h : l.Names index r) (h' : l.Names index' s) :
    index ++ [r] < index' ++ [s] ↔ l.position index r < l.position index' s := by
  obtain ⟨hindex, hr⟩ := names_natCast.mp h
  obtain ⟨hindex', hs⟩ := names_natCast.mp h'
  rw [position_eq_linearIndex hindex.length_eq, position_eq_linearIndex hindex'.length_eq]
  exact MultiIndex.lt_iff_linearIndex_lt (MultiIndex.forall₂_lt_concat hindex hr)
    (MultiIndex.forall₂_lt_concat hindex' hs)

/-- **Every number below that of all unknowns** is the number of an unknown. -/
theorem exists_position_eq (h : k < l.size) : ∃ index r, l.Names index (r : Nat) ∧ l.position index r = k := by
  have hpos : 0 < l.components := Nat.pos_of_ne_zero fun hzero => by
    rw [size, hzero, Nat.mul_zero] at h
    exact Nat.not_lt_zero k h
  obtain ⟨index, hindex, hnumber⟩ := MultiIndex.exists_linearIndex_eq
    (Nat.div_lt_of_lt_mul (lt_of_lt_of_eq h (Nat.mul_comm _ _)))
  refine ⟨index, k % l.components, names_natCast.mpr ⟨hindex, Nat.mod_lt k hpos⟩, ?_⟩
  rw [position, hnumber, Nat.div_add_mod']

/-- The number of unknowns as a word. -/
theorem toNat_unknowns_of_lt (h : l.size < UInt64.size) : l.unknowns.toNat = l.size := by
  rw [unknowns, functions, words, MultiIndex.product_ofNat, componentWord, ← UInt64.ofNat_mul]
  exact UInt64.toNat_ofNat_of_lt' h

end Layout

/-! ## (2) The two maps -/

namespace Assembler

variable {a : Assembler α} {space : Space} {index index' : List Nat} {component : Int} {r : Nat}
  {k : GlobalIndex}

/-- **The global index of an unknown** is the word of its number. -/
theorem toLinearIndex_eq_ok (h : (a.layout space).Names index r) :
    a.toLinearIndex index r space = .ok (UInt64.ofNat ((a.layout space).position index r)) := by
  have hindex : a.checkAxes index space = .ok () := (checkAxes_eq_ok_iff h.index_lt.length_eq).mpr h.index_lt
  have hcomponent : checkIndex .component r (a.layout space).components = .ok () :=
    checkIndex_eq_ok_iff.mpr ⟨h.component_nonneg, h.component_lt⟩
  rw [toLinearIndex, hindex]
  change (checkIndex .component r (a.layout space).components >>= fun _ => _) = _
  rw [hcomponent]
  change Except.ok _ = _
  rw [ofInt_natCast, Layout.words, MultiIndex.linearIndex_ofNat, Layout.componentWord, ← UInt64.ofNat_mul,
    ← UInt64.ofNat_add, Layout.position]

/-- **A global index is asked for out of range** exactly if index and component name no unknown. -/
theorem outOfRange_toLinearIndex_iff (hlen : index.length = (a.layout space).dofs.length) :
    OutOfRange (a.toLinearIndex index component space) ↔ ¬(a.layout space).Names index component := by
  have hindex : a.checkAxes index space = .ok () ∨ OutOfRange (a.checkAxes index space) :=
    forM_eq_ok_or fun _ _ => checkIndex_eq_ok_or ..
  rw [toLinearIndex, outOfRange_bind_iff hindex, outOfRange_bind_iff (checkIndex_eq_ok_or ..),
    checkAxes_eq_ok_iff hlen, checkIndex_eq_ok_iff]
  constructor
  · exact fun h hnames => not_outOfRange_ok
      (h hnames.index_lt ⟨hnames.component_nonneg, hnames.component_lt⟩)
  · exact fun h hlt hcomponent => absurd ⟨hlt, hcomponent.1, hcomponent.2⟩ h

/-- **The unknown with a global index.** -/
theorem fromLinearIndex_eq_ok (hsize : (a.layout space).size < UInt64.size)
    (h : (a.layout space).Names index r) :
    a.fromLinearIndex (UInt64.ofNat ((a.layout space).position index r)) space = .ok (index, r) := by
  obtain ⟨hindex, hr⟩ := Layout.names_natCast.mp h
  have hposition := Nat.lt_trans h.position_lt hsize
  have hcells : MultiIndex.product (a.layout space).dofs < UInt64.size :=
    Nat.lt_of_le_of_lt (Nat.le_mul_of_pos_right _ (Nat.zero_lt_of_lt hr)) hsize
  have hcomponents : (a.layout space).components < UInt64.size :=
    Nat.lt_of_le_of_lt (Nat.le_mul_of_pos_left _ (Nat.zero_lt_of_lt (MultiIndex.linearIndex_lt hindex)))
      hsize
  have hcheck : checkWord .globalIndex (UInt64.ofNat ((a.layout space).position index r))
      (a.layout space).unknowns = .ok () := by
    rw [checkWord_eq_ok_iff, UInt64.lt_iff_toNat_lt, Layout.toNat_unknowns_of_lt hsize,
      UInt64.toNat_ofNat_of_lt' hposition]
    exact h.position_lt
  -- Quotient and remainder by the number of components, and the digits of the quotient.
  have hquotient : UInt64.ofNat ((a.layout space).position index r) / (a.layout space).componentWord =
      UInt64.ofNat (MultiIndex.linearIndex index (a.layout space).dofs) := by
    rw [Layout.componentWord, ← UInt64.ofNat_div hposition hcomponents, Layout.position, mul_add_div_of_lt hr]
  have hremainder : UInt64.ofNat ((a.layout space).position index r) % (a.layout space).componentWord =
      UInt64.ofNat r := by
    rw [Layout.componentWord, ← UInt64.ofNat_mod hposition hcomponents, Layout.position,
      Nat.mul_add_mod_of_lt hr]
  rw [fromLinearIndex, hcheck]
  change Except.ok _ = _
  rw [hquotient, hremainder, Layout.words, MultiIndex.multiIndex_word hindex hcells,
    MultiIndex.map_toNat_ofNat hindex hcells, UInt64.toNat_ofNat_of_lt' (Nat.lt_trans hr hcomponents)]

/-- **An unknown is asked for out of range** exactly if there are not as many unknowns. -/
theorem outOfRange_fromLinearIndex_iff :
    OutOfRange (a.fromLinearIndex k space) ↔ ¬k < (a.layout space).unknowns := by
  have hcheck : checkWord .globalIndex k (a.layout space).unknowns = .ok () ∨
      OutOfRange (checkWord .globalIndex k (a.layout space).unknowns) := by
    rw [checkWord_eq_ok_iff, outOfRange_checkWord_iff]
    exact Classical.em _
  rw [fromLinearIndex, outOfRange_bind_iff hcheck, checkWord_eq_ok_iff]
  exact ⟨fun h hlt => not_outOfRange_ok (h hlt), fun h hlt => absurd hlt h⟩

/-- There are functions on every axis of both spaces. -/
theorem dofs_pos (hchecked : a.checked = .ok a) (hdim : a.test.dofs.length = a.trial.dofs.length) :
    ∀ n ∈ (a.layout space).dofs, 0 < n := by
  have hpos := List.all_eq_true.mp (checked_eq_ok hchecked).1
  have hboth : ∀ k (hk : k < a.test.dofs.length) (hk' : k < a.trial.dofs.length),
      0 < a.test.dofs[k] ∧ 0 < a.trial.dofs[k] := by
    intro k hk hk'
    have hmem : (a.test.dofs[k], a.trial.dofs[k]) ∈ a.test.dofs.zip a.trial.dofs := by
      rw [← List.getElem_zip (h := by rw [List.length_zip]; omega)]
      exact List.getElem_mem _
    have h := hpos _ hmem
    rwa [Bool.and_eq_true, decide_eq_true_iff, decide_eq_true_iff] at h
  intro n hn
  obtain ⟨k, hk, rfl⟩ := List.getElem_of_mem hn
  cases space with
  | trial => exact (hboth k (hdim ▸ hk) hk).2
  | test => exact (hboth k hk (hdim ▸ hk)).1

/-- **No step of the computation of sizes and global indices is too large for a word.** -/
theorem globalIndices_checked (hchecked : a.checked = .ok a)
    (hdim : a.test.dofs.length = a.trial.dofs.length) (hsize : (a.layout space).size < UInt64.size) :
    MultiIndex.product ((a.layout space).dofs.map CheckedWord.ofNat) *
        CheckedWord.ofNat (a.layout space).components = ⟨some (a.layout space).unknowns⟩ ∧
      ∀ index (r : Nat), (a.layout space).Names index r →
        MultiIndex.linearIndex (index.map CheckedWord.ofNat)
            ((a.layout space).dofs.map CheckedWord.ofNat) *
          CheckedWord.ofNat (a.layout space).components + CheckedWord.ofNat r =
            ⟨some (UInt64.ofNat ((a.layout space).position index r))⟩ := by
  have hpos : ∀ e ∈ (a.layout space).dofs ++ [(a.layout space).components], 0 < e := by
    rw [List.forall_mem_append, List.forall_mem_singleton]
    refine ⟨dofs_pos hchecked hdim, ?_⟩
    cases space with
    | trial => exact (components_pos hchecked).2
    | test => exact (components_pos hchecked).1
  have hcells := hsize
  rw [Layout.size_eq_product] at hcells
  constructor
  · have hproduct := MultiIndex.product_checked hpos hcells
    rw [List.map_append, List.map_singleton, MultiIndex.product_concat, ← Layout.size_eq_product,
      CheckedWord.ofNat_eq hsize] at hproduct
    rw [hproduct, ← Layout.toNat_unknowns_of_lt hsize, UInt64.ofNat_toNat]
  · intro index r h
    obtain ⟨hindex, hr⟩ := Layout.names_natCast.mp h
    have hnumber := MultiIndex.linearIndex_checked (MultiIndex.forall₂_lt_concat hindex hr) hcells
    rw [List.map_append, List.map_append, List.map_singleton, List.map_singleton,
      MultiIndex.linearIndex_concat (by rw [List.length_map, List.length_map, hindex.length_eq]),
      ← Layout.position_eq_linearIndex hindex.length_eq,
      CheckedWord.ofNat_eq (Nat.lt_trans h.position_lt hsize)] at hnumber
    exact hnumber

/-- **Global indices are a bijection.** Let the two spaces have the same number of axes, and let one of them
have fewer unknowns than there are words. Then index and component have a global index exactly if they
name an unknown, and a word has an unknown exactly if it is below the number of unknowns; otherwise the
maps fail because of an index. They are inverse to each other, and the lexicographic order of index and
component is the order of the global indices. No sum or product on the way is too large for a word. -/
theorem globalIndices_bijective (hchecked : a.checked = .ok a)
    (hdim : a.test.dofs.length = a.trial.dofs.length) (space : Space)
    (hsize : (a.layout space).size < UInt64.size) :
    let l := a.layout space
    (∀ index component, index.length = l.dofs.length →
      (OutOfRange (a.toLinearIndex index component space) ↔ ¬l.Names index component)) ∧
    (∀ index component, l.Names index component → ∃ k, a.toLinearIndex index component space = .ok k ∧
      k.toNat = l.position index component.toNat ∧ k < l.unknowns ∧
      a.fromLinearIndex k space = .ok (index, component.toNat)) ∧
    (∀ k, OutOfRange (a.fromLinearIndex k space) ↔ ¬k < l.unknowns) ∧
    (∀ k < l.unknowns, ∃ index r, a.fromLinearIndex k space = .ok (index, r) ∧ l.Names index (r : Nat) ∧
      a.toLinearIndex index (r : Nat) space = .ok k) ∧
    (∀ index index' (r s : Nat), l.Names index r → l.Names index' s →
      ∀ k m, a.toLinearIndex index r space = .ok k → a.toLinearIndex index' s space = .ok m →
        (index ++ [r] < index' ++ [s] ↔ k < m)) ∧
    l.unknowns.toNat = l.size ∧
    MultiIndex.product (l.dofs.map CheckedWord.ofNat) * CheckedWord.ofNat l.components =
      ⟨some l.unknowns⟩ ∧
    (∀ index (r : Nat), l.Names index r →
      MultiIndex.linearIndex (index.map CheckedWord.ofNat) (l.dofs.map CheckedWord.ofNat) *
        CheckedWord.ofNat l.components + CheckedWord.ofNat r =
          ⟨some (UInt64.ofNat (l.position index r))⟩) := by
  intro l
  have hunknowns : l.unknowns.toNat = l.size := Layout.toNat_unknowns_of_lt hsize
  have hword : ∀ index (r : Nat), l.Names index r →
      (UInt64.ofNat (l.position index r)).toNat = l.position index r := fun index r h =>
    UInt64.toNat_ofNat_of_lt' (Nat.lt_trans h.position_lt hsize)
  refine ⟨fun index component => outOfRange_toLinearIndex_iff, fun index component h => ?_,
    fun k => outOfRange_fromLinearIndex_iff, fun k hk => ?_, fun index index' r s h h' k m hk hm => ?_,
    hunknowns, globalIndices_checked hchecked hdim hsize⟩
  · lift component to Nat using h.component_nonneg with r
    refine ⟨_, toLinearIndex_eq_ok h, hword index r h, ?_, fromLinearIndex_eq_ok hsize h⟩
    rw [UInt64.lt_iff_toNat_lt, hunknowns, hword index r h]
    exact h.position_lt
  · rw [UInt64.lt_iff_toNat_lt, hunknowns] at hk
    obtain ⟨index, r, h, hposition⟩ := Layout.exists_position_eq hk
    have hk : UInt64.ofNat (l.position index r) = k := by rw [hposition, UInt64.ofNat_toNat]
    exact ⟨index, r, hk ▸ fromLinearIndex_eq_ok hsize h, h, hk ▸ toLinearIndex_eq_ok h⟩
  · obtain rfl := Except.ok.inj ((toLinearIndex_eq_ok h).symm.trans hk)
    obtain rfl := Except.ok.inj ((toLinearIndex_eq_ok h').symm.trans hm)
    rw [UInt64.lt_iff_toNat_lt, hword index r h, hword index' s h']
    exact h.lt_iff h'

/-- The last of six unknowns, and its neighbours. -/
theorem globalIndices_bijective_hats :
    hatAssembler.fromLinearIndex 5 .test = .ok ([2, 0], 1) ∧
      OutOfRange (hatAssembler.fromLinearIndex 6 .test) ∧
      OutOfRange (hatAssembler.toLinearIndex [2, 1] 1 .test) ∧
      OutOfRange (hatAssembler.toLinearIndex [2, 0] (-1) .test) ∧
      ∀ k < (hatAssembler.layout .test).unknowns, ∃ index r,
        hatAssembler.fromLinearIndex k .test = .ok (index, r) ∧
          hatAssembler.toLinearIndex index (r : Nat) .test = .ok k := by
  obtain ⟨houtside, hinside, hnone, honto, -⟩ :=
    globalIndices_bijective (a := hatAssembler) rfl rfl .test (by decide)
  have hlast : (hatAssembler.layout .test).Names [2, 0] (1 : Int) := ⟨by decide, by decide, by decide⟩
  refine ⟨?_, (hnone 6).mpr (by decide), (houtside [2, 1] 1 rfl).mpr ?_,
    (houtside [2, 0] (-1) rfl).mpr ?_, fun k hk => ?_⟩
  · obtain ⟨k, -, hnumber, -, hback⟩ := hinside _ _ hlast
    have hk : k = 5 := UInt64.toNat_inj.mp (hnumber.trans (by decide))
    exact hk ▸ hback
  · exact fun h => absurd h.index_lt (by decide)
  · exact fun h => absurd h.component_nonneg (by decide)
  · obtain ⟨index, r, hunknown, -, hback⟩ := honto k hk
    exact ⟨index, r, hunknown, hback⟩

end Assembler

end Galerkin
