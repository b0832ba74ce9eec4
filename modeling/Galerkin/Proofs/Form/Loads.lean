import Galerkin.Proofs.Form.Bodies

/-! # Bodies of loads

The body of a load registers its source functions, asks for the weight, and adds a term for each source
function. The sources of a vector load have names of their own, since a number has one way to be written.

* **`StandardForm.Loadable`** — source functions that can be registered;
* **`loadSpec_builds`** — the form of a load;
* **`loadable_vectorSources`**, **`vectorLoad_eq_ok`** — the sources of a vector load. -/

namespace Galerkin

variable {α : Type}

namespace StandardForm

open FormBuilder

variable {b : FormBuilder α} {d : Nat}

/-! ## (1) Source functions -/

/-- **Source functions that can be registered:** present, with names of their own. -/
structure Loadable (sources : List (String × Option (InputFunction α))) : Prop where
  nodup : (sources.map Prod.fst).Nodup
  allowed : ∀ source ∈ sources, AllowedName source.1
  fresh : ∀ source ∈ sources, source.1 ≠ "weight"
  present : ∀ source ∈ sources, source.2.isSome = true

/-- The fields of some source functions, numbered from `start` on. -/
def sourceFields (sources : List (String × Option (InputFunction α))) (start : Nat) :
    List (FieldVariable α) :=
  (sources.zipIdx start).map fun item => ⟨item.2, item.1.1, .scalar, false, .input item.1.2⟩

/-- A specification of a load with `n` components. -/
def loadSpec (name : String) (n : Nat) (sources : List (String × Option (InputFunction α))) : FormSpec α where
  name := name
  arity := .linear
  components := fun _ => n
  body := loadBody sources

/-- What a load accumulates for a source function. -/
def loadIntegrand (d : Nat) (name : String) : Expr α :=
  .binary .mul (.binary .mul weight (.field name .scalar false)) (derivativeOf testName d 0)

/-- The accumulations of a load. -/
def loadSums (d : Nat) (sources : List (String × Option (InputFunction α))) : List (Accumulation α) :=
  sources.zipIdx.map fun item => ⟨(item.2 : Int), some (loadIntegrand d item.1.1)⟩

/-- The body of a load makes changes only. -/
theorem loadSpec_sound {name : String} {n : Nat} {sources : List (String × Option (InputFunction α))} :
    (loadSpec name n sources).Sound := fun _ => loadBody_makes _

section Loads

variable {sources : List (String × Option (InputFunction α))}

/-- The names of the fields are those of the source functions. -/
theorem map_name_sourceFields (start : Nat) :
    (sourceFields sources start).map (·.name) = sources.map Prod.fst := by
  have hnames : (sourceFields sources start).map (·.name) =
      ((sources.zipIdx start).map Prod.fst).map Prod.fst := by
    rw [sourceFields, List.map_map, List.map_map]
    rfl
  rw [hnames, List.zipIdx_map_fst]

/-- **All source functions are registered,** one after the other. -/
theorem registerSources_runs (hsources : Loadable sources)
    (hfresh : ∀ source ∈ sources, b.find? source.1 = none) :
    Runs (sources.forM fun (name, function) => discard (inputFunction name function)) b ⟨⟩
      { b with fields := b.fields ++ sourceFields sources b.fields.length } := by
  induction sources generalizing b with
  | nil =>
    rw [sourceFields, List.zipIdx_nil, List.map_nil, List.append_nil]
    exact .pure
  | cons source sources ih =>
    obtain ⟨hnodup, hallowed, hweight, hpresent⟩ := hsources
    rw [List.map_cons, List.nodup_cons] at hnodup
    let f : FieldVariable α := ⟨b.fields.length, source.1, .scalar, false, .input source.2⟩
    let b' : FormBuilder α := { b with fields := b.fields ++ [f] }
    have hfirst : Runs (inputFunction source.1 source.2) b (.field source.1 .scalar false) b' :=
      inputFunction_runs (hpresent _ (List.mem_cons_self ..)) (hallowed _ (List.mem_cons_self ..))
        (hfresh _ (List.mem_cons_self ..))
    have hothers : Loadable sources := ⟨hnodup.2, fun s hs => hallowed s (List.mem_cons_of_mem _ hs),
      fun s hs => hweight s (List.mem_cons_of_mem _ hs), fun s hs => hpresent s (List.mem_cons_of_mem _ hs)⟩
    have hrest := ih (b := b') hothers ?_
    · have hlength : b'.fields.length = b.fields.length + 1 := List.length_append
      have hfields : b'.fields ++ sourceFields sources b'.fields.length =
          b.fields ++ sourceFields (source :: sources) b.fields.length := by
        rw [hlength, List.append_assoc]
        rfl
      rw [hfields] at hrest
      rw [List.forM_eq_forM, List.forM_cons, ← List.forM_eq_forM]
      have hdiscard : Runs (discard (inputFunction source.1 source.2)) b PUnit.unit b' := by
        show Runs ((fun _ => PUnit.unit) <$> inputFunction source.1 source.2) b _ b'
        rw [map_eq_pure_bind]
        exact hfirst.bind .pure
      exact hdiscard.bind hrest
    · -- The names of the others are not that of the first one.
      intro s hs
      have hold := hfresh s (List.mem_cons_of_mem _ hs)
      have hne : source.1 ≠ s.1 := fun h => hnodup.1 (h ▸ List.mem_map_of_mem hs)
      unfold find? at hold ⊢
      rw [List.find?_append, hold, Option.none_or, List.find?_singleton, if_neg (by simpa using hne)]

/-- The names of all fields of a load are different. -/
theorem nodup_loadFields (hsources : Loadable sources) (n : Nat) :
    ((sourceFields sources 0 ++ [weightVariable n] : List (FieldVariable α)).map (·.name)).Nodup := by
  rw [List.map_append, map_name_sourceFields]
  refine List.nodup_append.mpr ⟨hsources.nodup, List.nodup_singleton _, ?_⟩
  intro name hname _ hweight
  obtain ⟨source, hsource, rfl⟩ := List.mem_map.mp hname
  obtain rfl := List.mem_singleton.mp hweight
  exact hsources.fresh source hsource

/-- The field of a source function has the number of its component. -/
theorem mem_sourceFields {n slot : Nat} {source : String × Option (InputFunction α)}
    (hslot : sources[slot]? = some source) :
    (⟨slot, source.1, .scalar, false, .input source.2⟩ : FieldVariable α) ∈
      sourceFields sources 0 ++ [weightVariable n] :=
  List.mem_append_left _ (List.mem_map.mpr ⟨(source, slot), List.mk_mem_zipIdx_iff_getElem?.mpr hslot, rfl⟩)

/-- A load refers to the weight, to its source function and to the test function. -/
theorem uses_loadIntegrand {n slot : Nat} {source : String × Option (InputFunction α)}
    (hslot : sources[slot]? = some source) :
    (loadIntegrand d source.1 : Expr α).Uses d (sourceFields sources 0 ++ [weightVariable n]) [testName] := by
  have hsource := mem_sourceFields (n := n) hslot
  have hweight : (weightVariable n : FieldVariable α) ∈ sourceFields sources 0 ++ [weightVariable n] :=
    List.mem_append_right _ (List.mem_singleton_self _)
  exact ((Expr.Uses.field hweight).binary (.field hsource)).binary (.deriv (List.mem_singleton_self _) 0)

/-- One source function is added to its slot. -/
theorem addSource_runs {n slot : Nat} {source : String × Option (InputFunction α)}
    (hsources : Loadable sources) (hfields : b.fields = sourceFields sources 0 ++ [weightVariable n])
    (hdim : b.dim = d) (hslot : sources[slot]? = some source) (hlt : slot < b.outputSlots) :
    Runs (addSource weight (derivativeOf testName d 0) source.1 slot) b ⟨⟩
      { b with accumulations := b.accumulations ++ [⟨(slot : Int), some (loadIntegrand d source.1)⟩] } := by
  subst hdim
  have hnodup : (b.fields.map (·.name)).Nodup := hfields ▸ nodup_loadFields hsources n
  have hmem := hfields ▸ mem_sourceFields (n := n) hslot
  have hfield : b.field source.1 = .ok (.field source.1 .scalar false) :=
    field_ok (f := ⟨slot, source.1, .scalar, false, .input source.2⟩)
      (hsources.allowed source (List.mem_of_getElem? hslot)).1 declarable_scalar (find?_of_nodup hnodup hmem)
  have huses : (loadIntegrand b.dim source.1 : Expr α).Uses b.dim b.fields [testName] :=
    hfields ▸ uses_loadIntegrand hslot
  refine .get fun _ => (Runs.lift hfield).bind ((times_runs (by rfl)).bind ((times_runs (by rfl)).bind ?_))
  exact addToSlot_runs rfl hlt (checkReferences_of_uses hnodup huses (fun h => nomatch h)
    (List.forall_mem_singleton.mpr checkBasis_test))

/-- There is an accumulation for each source function. -/
theorem loadSums_ne_nil (hne : 1 ≤ sources.length) : loadSums d sources ≠ [] := by
  rw [Ne, loadSums, List.map_eq_nil_iff, ← List.length_eq_zero_iff, List.length_zipIdx]
  omega

/-- No two of them have one slot. -/
theorem nodup_loadSums : ((loadSums d sources).map (·.slot)).Nodup := by
  have hslots : (loadSums d sources).map (·.slot) = (sources.zipIdx.map Prod.snd).map Int.ofNat := by
    rw [loadSums, List.map_map, List.map_map]
    rfl
  rw [hslots, List.zipIdx_map_snd]
  exact List.Nodup.map Int.ofNat_injective List.nodup_range'

/-- The accumulation of a source function. -/
theorem mem_loadSums {slot : Nat} {source : String × Option (InputFunction α)}
    (hslot : sources[slot]? = some source) :
    ⟨(slot : Int), some (loadIntegrand d source.1)⟩ ∈ loadSums d sources :=
  List.mem_map.mpr ⟨(source, slot), List.mk_mem_zipIdx_iff_getElem?.mpr hslot, rfl⟩

/-- All accumulations refer to what is registered. -/
theorem uses_loadSums {n : Nat} : ∀ a ∈ loadSums d sources, ∀ e, a.expression = some e →
    e.Uses d (sourceFields sources 0 ++ [weightVariable n]) [testName] := by
  intro a ha e he
  obtain ⟨⟨source, slot⟩, hitem, rfl⟩ := List.mem_map.mp ha
  exact Option.some.inj he ▸ uses_loadIntegrand (List.mk_mem_zipIdx_iff_getElem?.mp hitem)

/-- Fields of a load have no definition of their own. -/
theorem expression_loadFields {n : Nat} :
    ∀ f ∈ (sourceFields sources 0 ++ [weightVariable n] : List (FieldVariable α)),
      f.definition.expression = none := by
  intro f hf
  rcases List.mem_append.mp hf with hf | hf
  · obtain ⟨_, -, rfl⟩ := List.mem_map.mp hf
    rfl
  · obtain rfl := List.mem_singleton.mp hf
    rfl

/-! ## (2) Forms of loads -/

/-- **A load is built in every dimension** from source functions that can be registered. -/
theorem loadSpec_builds (name : String) {n : Nat} (hd : 1 ≤ d) (hsources : Loadable sources)
    (hn : sources.length = n) (hne : 1 ≤ n) : ∃ form : Form α,
    (loadSpec name n sources).Builds d (sourceFields sources 0 ++ [weightVariable n]) (loadSums d sources)
      form := by
  set spec := loadSpec name n sources with hspec
  let b₁ : FormBuilder α := { spec.start d with fields := sourceFields sources 0 }
  let b₂ : FormBuilder α := { spec.start d with fields := sourceFields sources 0 ++ [weightVariable n] }
  have hnodup := nodup_loadFields hsources n
  have hregister : Runs (sources.forM fun (name, function) => discard (inputFunction name function))
      (spec.start d) ⟨⟩ b₁ := registerSources_runs hsources fun _ _ => rfl
  have hcount : (sourceFields sources 0).length = n := by
    rw [sourceFields, List.length_map, List.length_zipIdx, hn]
  have hweight : Runs quadratureWeight b₁ weight b₂ := by
    -- No source function has taken the name of the weight.
    have hfresh : b₁.find? "weight" = none := by
      refine List.find?_eq_none.mpr fun f hf => ?_
      have hname := List.mem_map_of_mem (f := FieldVariable.name) hf
      rw [map_name_sourceFields] at hname
      obtain ⟨source, hsource, hname⟩ := List.mem_map.mp hname
      simpa [← hname] using hsources.fresh source hsource
    have hlength : b₁.fields.length = n := hcount
    have hrun := quadratureWeight_runs hfresh
    rwa [hlength] at hrun
  refine FormSpec.exists_builds hd (Int.ofNat_le.mpr hne) ?_ (loadSums_ne_nil (hn ▸ hne))
  refine hregister.bind (hweight.bind ((basisValue_runs rfl hd checkBasis_test).bind ?_))
  refine Runs.forM (b := b₂) ?_
  rintro ⟨source, slot⟩ hitem sums
  have hslot := List.mk_mem_zipIdx_iff_getElem?.mp hitem
  have hlt : slot < n := hn ▸ (List.getElem?_eq_some_iff.mp hslot).1
  exact addSource_runs (b := { b₂ with accumulations := sums }) hsources rfl rfl hslot hlt

end Loads

/-! ## (3) Vector loads -/

section VectorLoads

variable {functions : List (Option (InputFunction α))}

/-- The name of the source function of a component, character by character. -/
theorem toList_sourceName (c : Nat) : (sourceName c).toList = 'f' :: Nat.toDigits 10 c := by
  have hdigits : c.repr.toList = Nat.toDigits 10 c := String.toList_ofList
  show ("f" ++ c.repr).toList = _
  rw [String.toList_append, hdigits]
  rfl

/-- Components have source functions of different names. -/
theorem sourceName_injective : Function.Injective sourceName := by
  intro a b h
  have hdigits := congrArg String.toList h
  rw [toList_sourceName, toList_sourceName, List.cons.injEq] at hdigits
  have hvalue := congrArg (Nat.ofDigitChars 10 · 0) hdigits.2
  rwa [Nat.ofDigitChars_ten_toDigits, Nat.ofDigitChars_ten_toDigits] at hvalue

/-- The name of a source function begins with its own letter. -/
theorem sourceName_ne {c : Nat} {name : String} (h : name.toList.head? ≠ some 'f') : sourceName c ≠ name := by
  rintro rfl
  exact h (by rw [toList_sourceName]; rfl)

/-- The source functions of a vector load, with their names. -/
def vectorSources (functions : List (Option (InputFunction α))) : List (String × Option (InputFunction α)) :=
  functions.zipIdx.map fun (f, c) => (sourceName c, f)

/-- Source functions that are present can be registered. -/
theorem loadable_vectorSources (h : ∀ f ∈ functions, f.isSome = true) :
    Loadable (vectorSources functions) := by
  refine ⟨?_, ?_, ?_, ?_⟩
  · have hnames : (vectorSources functions).map Prod.fst =
        (functions.zipIdx.map Prod.snd).map sourceName := by
      rw [vectorSources, List.map_map, List.map_map]
      rfl
    rw [hnames, List.zipIdx_map_snd]
    exact List.Nodup.map sourceName_injective List.nodup_range'
  all_goals
    intro source hsource
    obtain ⟨⟨f, c⟩, hitem, rfl⟩ := List.mem_map.mp hsource
  · exact ⟨sourceName_ne (by decide), sourceName_ne (by decide), sourceName_ne (by decide)⟩
  · exact sourceName_ne (by decide)
  · exact h f (List.mem_of_getElem? (List.mk_mem_zipIdx_iff_getElem?.mp hitem))

/-- A vector load is the specification with these sources. -/
theorem vectorLoad_eq_ok (hne : functions ≠ []) (hpresent : ∀ f ∈ functions, f.isSome = true) :
    vectorLoad functions = .ok (loadSpec "vector_load" functions.length (vectorSources functions)) :=
  require_bind_eq_ok_iff.mpr ⟨by simpa using hne, require_bind_eq_ok_iff.mpr
    ⟨List.all_eq_true.mpr hpresent, rfl⟩⟩

/-- There is a source function for each component. -/
theorem getElem?_vectorSources (c : Nat) :
    (vectorSources functions)[c]? = functions[c]?.map fun f => (sourceName c, f) := by
  rw [vectorSources, List.getElem?_map, List.getElem?_zipIdx, Option.map_map, Nat.zero_add]
  rfl

end VectorLoads

end StandardForm

end Galerkin
