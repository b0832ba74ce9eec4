import Galerkin.Error
import Mathlib.Data.List.Forall2

/-! # Steps that can fail

Operations of this library are sequences of steps in `Except`, or in a state over it. The lemmas here
take a sequence apart at its steps.

* **`bind_eq_ok_iff`**, **`mapM_eq_ok_iff`**, **`forM_eq_ok_iff`** — a sequence succeeds when each of its
  steps does;
* **`mapM_eq_error`**, **`forM_eq_error`** — and fails with the first step that fails;
* **`mapM_set`** — a traversal with another step in one place;
* **`OutOfRange`** — a failure because of an index;
* **`Achieves`** — what a step with a state does: it surely succeeds under a condition, and whenever it
  succeeds its result has a property;
* **`Achieves.mapM`**, **`Achieves.foldlM`**, **`Achieves.forM`** — the same for loops over a state that
  only grows;
* **`Achieves.forM_invariant`** — a loop that keeps a property of the state;
* **`InPlace.run_bind_ok`**, **`InPlace.run_bind_error`** — a sequence of steps that change a state in place;
* **`InPlace.finished_forM_change`** — a loop of such changes. -/

namespace Galerkin

variable {ε σ β γ : Type}

/-! ## (1) Steps without a state -/

/-- Two steps succeed when the first one does and the second one does on its result. -/
theorem bind_eq_ok_iff {x : Except ε β} {f : β → Except ε γ} {c : γ} :
    (x >>= f) = .ok c ↔ ∃ b, x = .ok b ∧ f b = .ok c := by
  cases x <;> simp [bind, Except.bind]

/-- A step whose result is converted succeeds when the step does. -/
theorem map_eq_ok_iff {x : Except ε β} {f : β → γ} {c : γ} :
    x.map f = .ok c ↔ ∃ b, x = .ok b ∧ f b = c := by
  cases x <;> simp [Except.map]

/-- A step that leaves a value succeeds. -/
theorem exists_eq_ok {x : Except ε β} (h : x.toOption.isSome = true) : ∃ b, x = .ok b := by
  cases x with
  | ok b => exact ⟨b, rfl⟩
  | error _ => cases h

/-- A step that leaves a value of some kind succeeds with such a value. -/
theorem exists_eq_ok_of_any {x : Except ε β} {p : β → Bool} (h : x.toOption.any p = true) :
    ∃ b, x = .ok b ∧ p b = true := by
  cases x with
  | ok b => exact ⟨b, rfl, h⟩
  | error _ => cases h

/-- A step behind a check succeeds when the check holds and the step does. -/
theorem require_bind_eq_ok_iff {condition : Bool} {cause : Error} {f : Unit → Except Error γ}
    {c : γ} :
    (require condition cause >>= f) = .ok c ↔ condition = true ∧ f () = .ok c := by
  rw [bind_eq_ok_iff]
  constructor
  · rintro ⟨⟨⟩, h, hf⟩
    exact ⟨require_eq_ok_iff.mp h, hf⟩
  · rintro ⟨h, hf⟩
    exact ⟨(), require_eq_ok_iff.mpr h, hf⟩

/-- **A traversal succeeds when every step does,** and its results are those of the steps in order. -/
theorem mapM_eq_ok_iff {f : β → Except ε γ} {xs : List β} {ys : List γ} :
    xs.mapM f = .ok ys ↔ List.Forall₂ (fun x y => f x = .ok y) xs ys := by
  induction xs generalizing ys with
  | nil =>
    rw [List.mapM_nil, List.forall₂_nil_left_iff]
    constructor
    · intro h
      exact (Except.ok.inj h).symm
    · rintro rfl
      rfl
  | cons x xs ih =>
    rw [List.mapM_cons, List.forall₂_cons_left_iff, bind_eq_ok_iff]
    constructor
    · rintro ⟨y, hy, h⟩
      obtain ⟨zs, hzs, h⟩ := bind_eq_ok_iff.mp h
      exact ⟨y, zs, hy, ih.mp hzs, (Except.ok.inj h).symm⟩
    · rintro ⟨y, zs, hy, hzs, rfl⟩
      exact ⟨y, hy, bind_eq_ok_iff.mpr ⟨zs, ih.mpr hzs, rfl⟩⟩

/-- A traversal whose steps all succeed collects their results. -/
theorem mapM_eq_ok_map {f : β → Except ε γ} {g : β → γ} {xs : List β}
    (h : ∀ x ∈ xs, f x = .ok (g x)) : xs.mapM f = .ok (xs.map g) := by
  rw [mapM_eq_ok_iff, List.forall₂_map_right_iff, List.forall₂_same]
  exact h

/-- A traversal whose steps all succeed does. -/
theorem exists_mapM_eq_ok {f : β → Except ε γ} {xs : List β} (h : ∀ x ∈ xs, ∃ y, f x = .ok y) :
    ∃ ys, xs.mapM f = .ok ys := by
  induction xs with
  | nil => exact ⟨[], rfl⟩
  | cons x xs ih =>
    obtain ⟨y, hy⟩ := h x (List.mem_cons_self ..)
    obtain ⟨ys, hys⟩ := ih fun z hz => h z (List.mem_cons_of_mem _ hz)
    exact ⟨y :: ys, mapM_eq_ok_iff.mpr (.cons hy (mapM_eq_ok_iff.mp hys))⟩

/-- The steps of a traversal that succeeds do. -/
theorem exists_step_of_mapM {f : β → Except ε γ} {xs : List β} {ys : List γ} (h : xs.mapM f = .ok ys)
    {x : β} (hx : x ∈ xs) : ∃ y ∈ ys, f x = .ok y := by
  have hall := mapM_eq_ok_iff.mp h
  obtain ⟨k, hk, rfl⟩ := List.getElem_of_mem hx
  exact ⟨_, List.get_mem ys ⟨k, hall.length_eq ▸ hk⟩, hall.get hk (hall.length_eq ▸ hk)⟩

/-- The results of a traversal are those of its steps. -/
theorem exists_mem_of_mapM {f : β → Except ε γ} {xs : List β} {ys : List γ} (h : xs.mapM f = .ok ys)
    {y : γ} (hy : y ∈ ys) : ∃ x ∈ xs, f x = .ok y := by
  have hall := mapM_eq_ok_iff.mp h
  obtain ⟨k, hk, rfl⟩ := List.getElem_of_mem hy
  exact ⟨_, List.get_mem xs ⟨k, hall.length_eq ▸ hk⟩, hall.get (hall.length_eq ▸ hk) hk⟩

/-- A traversal collects the results that its steps can have. -/
theorem eq_map_of_mapM_eq_ok {f : β → Except ε γ} {g : β → γ} {xs : List β} {ys : List γ}
    (h : xs.mapM f = .ok ys) (hg : ∀ x y, f x = .ok y → g x = y) : ys = xs.map g := by
  have hall : List.Forall₂ (· = ·) (xs.map g) ys :=
    List.forall₂_map_left_iff.mpr ((mapM_eq_ok_iff.mp h).imp hg)
  rw [List.forall₂_eq_eq_eq] at hall
  exact hall.symm

/-- A traversal whose results are converted one by one. -/
theorem mapM_bind_ok {δ : Type} (f : β → Except ε γ) (g : γ → δ) (xs : List β) :
    (xs.mapM fun x => f x >>= fun y => .ok (g y)) = xs.mapM f >>= fun ys => .ok (ys.map g) := by
  induction xs with
  | nil => rfl
  | cons x xs ih =>
    rw [List.mapM_cons, List.mapM_cons, ih]
    cases f x with
    | error e => rfl
    | ok y => cases xs.mapM f <;> rfl

/-- **A traversal in parts:** the parts are traversed one after the other. -/
theorem mapM_flatMap {ι : Type} (f : β → Except ε γ) (parts : ι → List β) (xs : List ι) :
    (xs.flatMap parts).mapM f = (xs.mapM fun x => (parts x).mapM f) >>= fun yss => .ok yss.flatten := by
  induction xs with
  | nil => rfl
  | cons x xs ih =>
    rw [List.flatMap_cons, List.mapM_append, List.mapM_cons, ih]
    cases (parts x).mapM f with
    | error e => rfl
    | ok ys => cases xs.mapM fun x => (parts x).mapM f <;> rfl

/-- **A traversal that keeps some results** is one that keeps them all, and drops what is not kept. -/
theorem filterMapM_eq (f : β → Except ε (Option γ)) (xs : List β) :
    xs.filterMapM f = xs.mapM f >>= fun results => .ok (results.filterMap id) := by
  induction xs with
  | nil => rfl
  | cons x xs ih =>
    rw [List.filterMapM_cons, List.mapM_cons, ih]
    cases f x with
    | error e => rfl
    | ok result =>
      cases result with
      | none => cases xs.mapM f <;> rfl
      | some y => cases xs.mapM f <;> rfl

/-- Traversals with the same steps are the same. -/
theorem mapM_congr {f g : β → Except ε γ} {xs : List β} (h : ∀ x ∈ xs, g x = f x) :
    xs.mapM g = xs.mapM f := by
  induction xs with
  | nil => rfl
  | cons x xs ih =>
    rw [List.mapM_cons, List.mapM_cons, h x (List.mem_cons_self ..),
      ih fun z hz => h z (List.mem_cons_of_mem _ hz)]

/-- **A traversal with another step in one place** is the former one with the result of that step there. -/
theorem mapM_set {f g : β → Except ε γ} {xs : List β} {ys : List γ} (h : xs.mapM f = .ok ys) {n : Nat}
    {x : β} (hx : xs[n]? = some x) (hg : ∀ m z, xs[m]? = some z → m ≠ n → g z = f z) :
    xs.mapM g = g x >>= fun y => .ok (ys.set n y) := by
  induction xs generalizing ys n with
  | nil => cases hx
  | cons z zs ih =>
    rw [List.mapM_cons, bind_eq_ok_iff] at h
    obtain ⟨w, hw, h⟩ := h
    obtain ⟨ws, hws, h⟩ := bind_eq_ok_iff.mp h
    obtain rfl := Except.ok.inj h
    rw [List.mapM_cons]
    cases n with
    | zero =>
      obtain rfl := Option.some.inj hx
      have hrest : ∀ a ∈ zs, g a = f a := by
        intro a ha
        obtain ⟨m, hm⟩ := List.getElem?_of_mem ha
        exact hg (m + 1) a hm (Nat.succ_ne_zero m)
      rw [mapM_congr hrest, hws]
      rfl
    | succ n =>
      rw [hg 0 z rfl (Nat.succ_ne_zero n).symm, hw,
        ih hws hx fun m a ha hm => hg (m + 1) a ha fun h => hm (Nat.succ.inj h)]
      cases g x <;> rfl

/-- **A traversal fails with its first step that fails.** -/
theorem mapM_eq_error {f : β → Except ε γ} {xs : List β} {n : Nat} {x : β} {e : ε} (hx : xs[n]? = some x)
    (he : f x = .error e) (hbefore : ∀ m < n, ∀ y, xs[m]? = some y → ∃ z, f y = .ok z) :
    xs.mapM f = .error e := by
  induction xs generalizing n with
  | nil => cases hx
  | cons y ys ih =>
    rw [List.mapM_cons]
    cases n with
    | zero =>
      obtain rfl := Option.some.inj hx
      rw [he]
      rfl
    | succ n =>
      obtain ⟨z, hz⟩ := hbefore 0 (Nat.succ_pos n) y rfl
      rw [hz, ih hx fun m hm w hw => hbefore (m + 1) (Nat.succ_lt_succ hm) w hw]
      rfl

/-- **A traversal of checks succeeds when every check does.** -/
theorem forM_eq_ok_iff {f : β → Except ε Unit} {xs : List β} :
    xs.forM f = .ok () ↔ ∀ x ∈ xs, f x = .ok () := by
  induction xs with
  | nil => simp [pure, Except.pure]
  | cons x xs ih =>
    rw [List.forM_eq_forM, List.forM_cons, bind_eq_ok_iff, List.forall_mem_cons,
      ← List.forM_eq_forM, ← ih]
    constructor
    · rintro ⟨⟨⟩, hx, hxs⟩
      exact ⟨hx, hxs⟩
    · rintro ⟨hx, hxs⟩
      exact ⟨(), hx, hxs⟩

/-- **A traversal of checks fails with the first one that fails.** -/
theorem forM_eq_error {f : β → Except ε Unit} {xs : List β} {n : Nat} {x : β} {e : ε} (hx : xs[n]? = some x)
    (he : f x = .error e) (hbefore : ∀ m < n, ∀ y, xs[m]? = some y → f y = .ok ()) :
    xs.forM f = .error e := by
  induction xs generalizing n with
  | nil => cases hx
  | cons y ys ih =>
    rw [List.forM_eq_forM, List.forM_cons, ← List.forM_eq_forM]
    cases n with
    | zero =>
      obtain rfl := Option.some.inj hx
      rw [he]
      rfl
    | succ n =>
      rw [hbefore 0 (Nat.succ_pos n) y rfl,
        ← ih hx fun m hm w hw => hbefore (m + 1) (Nat.succ_lt_succ hm) w hw]
      rfl

/-! ## (2) Indices out of range -/

/-- **A failure because of an index:** some index is not below its bound. -/
def OutOfRange (x : Except Error β) : Prop :=
  ∃ site index bound, x = .error (.index site index bound)

/-- What succeeds has no index out of range. -/
theorem not_outOfRange_ok {b : β} : ¬OutOfRange (.ok b) := by
  rintro ⟨site, index, bound, h⟩
  cases h

/-- A check with an index as its cause fails because of the index or not at all. -/
theorem outOfRange_require_iff {condition : Bool} {site : IndexSite} {index bound : UInt64} :
    OutOfRange (require condition (.index site index bound)) ↔ ¬condition = true := by
  cases condition with
  | true => exact iff_of_false not_outOfRange_ok fun h => h rfl
  | false => exact iff_of_true ⟨site, index, bound, rfl⟩ Bool.false_ne_true

/-- **The range check** fails because of an index exactly if that is out of range. -/
theorem outOfRange_checkIndex_iff {site : IndexSite} {index : Int} {bound : Nat} :
    OutOfRange (checkIndex site index bound) ↔ ¬(0 ≤ index ∧ index < (bound : Int)) := by
  rw [checkIndex, outOfRange_require_iff, Bool.and_eq_true, decide_eq_true_iff, decide_eq_true_iff]

/-- The range check of a word does if the word is out of range. -/
theorem outOfRange_checkWord_iff {site : IndexSite} {index bound : UInt64} :
    OutOfRange (checkWord site index bound) ↔ ¬index < bound := by
  rw [checkWord, outOfRange_require_iff, decide_eq_true_iff]

/-- Range checks fail because of an index or not at all. -/
theorem checkIndex_eq_ok_or (site : IndexSite) (index : Int) (bound : Nat) :
    checkIndex site index bound = .ok () ∨ OutOfRange (checkIndex site index bound) := by
  rw [checkIndex_eq_ok_iff, outOfRange_checkIndex_iff]
  exact Classical.em _

/-- Steps behind one that fails because of an index fail as well. -/
theorem OutOfRange.bind {x : Except Error β} (h : OutOfRange x) (f : β → Except Error γ) :
    OutOfRange (x >>= f) := by
  obtain ⟨site, index, bound, rfl⟩ := h
  exact ⟨site, index, bound, rfl⟩

/-- **Steps behind a check that can only fail because of an index** fail so if the check does or they do. -/
theorem outOfRange_bind_iff {x : Except Error Unit} {f : Unit → Except Error γ}
    (hx : x = .ok () ∨ OutOfRange x) : OutOfRange (x >>= f) ↔ (x = .ok () → OutOfRange (f ())) := by
  rcases hx with rfl | hx
  · exact ⟨fun h _ => h, fun h => h rfl⟩
  · exact iff_of_true (hx.bind f) fun h => absurd (h ▸ hx) not_outOfRange_ok

/-- **A traversal of checks** that can only fail because of an index can only fail so. -/
theorem forM_eq_ok_or {f : β → Except Error Unit} {xs : List β}
    (h : ∀ x ∈ xs, f x = .ok () ∨ OutOfRange (f x)) : xs.forM f = .ok () ∨ OutOfRange (xs.forM f) := by
  induction xs with
  | nil => exact .inl rfl
  | cons x xs ih =>
    obtain ⟨hx, hxs⟩ := List.forall_mem_cons.mp h
    rw [List.forM_eq_forM, List.forM_cons, ← List.forM_eq_forM]
    rcases hx with hx | hx
    · rw [hx]
      exact ih hxs
    · exact .inr (hx.bind _)

/-! ## (3) Steps with a state -/

/-- **What a step does from a state:** if `sure` holds it succeeds, and every result it has, with the
state after it, satisfies `P`. -/
def Achieves (sure : Prop) (x : StateT σ (Except ε) β) (s : σ) (P : β → σ → Prop) : Prop :=
  (sure → ∃ r, x.run s = .ok r) ∧ ∀ b s', x.run s = .ok (b, s') → P b s'

namespace Achieves

variable {sure : Prop} {s : σ} {P : β → σ → Prop}

/-- A weaker condition and a stronger result are enough. -/
theorem mono {sure' : Prop} {P' : β → σ → Prop} {x : StateT σ (Except ε) β}
    (h : Achieves sure' x s P') (hsure : sure → sure')
    (hP : ∀ b s', P' b s' → P b s') : Achieves sure x s P :=
  ⟨fun hs => h.1 (hsure hs), fun b s' hr => hP b s' (h.2 b s' hr)⟩

/-- A result alone changes nothing. -/
theorem pure {b : β} (h : P b s) : Achieves sure (pure b : StateT σ (Except ε) β) s P := by
  refine ⟨fun _ => ⟨_, rfl⟩, ?_⟩
  intro c s' hr
  obtain ⟨rfl, rfl⟩ := Prod.mk.inj (Except.ok.inj hr)
  exact h

/-- **One step after the other.** -/
theorem bind {Q : γ → σ → Prop} {x : StateT σ (Except ε) γ} {f : γ → StateT σ (Except ε) β}
    (hx : Achieves sure x s Q) (hf : ∀ c s', Q c s' → Achieves sure (f c) s' P) :
    Achieves sure (x >>= f) s P := by
  constructor
  · intro hs
    obtain ⟨⟨c, s'⟩, hc⟩ := hx.1 hs
    obtain ⟨r, hr⟩ := (hf c s' (hx.2 c s' hc)).1 hs
    exact ⟨r, by rw [StateT.run_bind, bind_eq_ok_iff]; exact ⟨(c, s'), hc, hr⟩⟩
  · intro b s'' hr
    rw [StateT.run_bind, bind_eq_ok_iff] at hr
    obtain ⟨⟨c, s'⟩, hc, hr⟩ := hr
    exact (hf c s' (hx.2 c s' hc)).2 b s'' hr

/-- A step that does not look at the state leaves it as it is. -/
theorem lift {e : Except ε β} (hsure : sure → ∃ b, e = .ok b) (hP : ∀ b, e = .ok b → P b s) :
    Achieves sure (liftM e : StateT σ (Except ε) β) s P := by
  constructor
  · intro hs
    obtain ⟨b, rfl⟩ := hsure hs
    exact ⟨(b, s), rfl⟩
  · intro b s' hr
    cases e with
    | error e => cases hr
    | ok c =>
      obtain ⟨rfl, rfl⟩ := Prod.mk.inj (Except.ok.inj hr)
      exact hP _ rfl

/-- A failure has no result, so it must not be sure. -/
theorem throw {e : ε} (h : ¬sure) : Achieves sure (throw e : StateT σ (Except ε) β) s P :=
  ⟨fun hs => absurd hs h, fun _ _ hr => nomatch hr⟩

/-- The current state. -/
theorem get : Achieves sure (MonadState.get : StateT σ (Except ε) σ) s fun b s' => s = b ∧ s = s' := by
  refine ⟨fun _ => ⟨_, rfl⟩, ?_⟩
  intro b s' hr
  obtain ⟨rfl, rfl⟩ := Prod.mk.inj (Except.ok.inj hr)
  exact ⟨rfl, rfl⟩

/-- A new state. -/
theorem set {t : σ} : Achieves sure (MonadStateOf.set t : StateT σ (Except ε) PUnit) s fun _ s' => t = s' :=
  ⟨fun _ => ⟨_, rfl⟩, fun _ _ hr => (Prod.mk.inj (Except.ok.inj hr)).2⟩

/-- A change of the state. -/
theorem modify {f : σ → σ} :
    Achieves sure (modifyGet (fun t => (⟨⟩, f t)) : StateT σ (Except ε) PUnit) s fun _ s' => s' = f s := by
  refine ⟨fun _ => ⟨_, rfl⟩, ?_⟩
  intro b s' hr
  exact (Prod.mk.inj (Except.ok.inj hr)).2.symm

variable {I : σ → Prop} {L : σ → σ → Prop}

/-- **A traversal with a state that only grows.** Each step keeps `I` and makes the state larger; what it
finds about its element, `R`, stays true in larger states. -/
theorem mapM {R : γ → β → σ → Prop} (refl : ∀ s, L s s)
    (trans : ∀ {a b c}, L a b → L b c → L a c)
    (stable : ∀ {x y a b}, I a → I b → L a b → R x y a → R x y b)
    {f : γ → StateT σ (Except ε) β} {xs : List γ} {o : σ} (hI : I s) (hle : L o s)
    (step : ∀ x ∈ xs, ∀ t, I t → L o t →
      Achieves sure (f x) t fun y t' => I t' ∧ L t t' ∧ R x y t') :
    Achieves sure (xs.mapM f) s fun ys s' =>
      I s' ∧ L s s' ∧ List.Forall₂ (fun x y => R x y s') xs ys := by
  induction xs generalizing s with
  | nil =>
    rw [List.mapM_nil]
    exact pure ⟨hI, refl s, .nil⟩
  | cons x xs ih =>
    rw [List.mapM_cons]
    refine (step x (List.mem_cons_self ..) s hI hle).bind ?_
    rintro y t ⟨ht, hst, hy⟩
    refine (ih ht (trans hle hst) fun z hz => step z (List.mem_cons_of_mem _ hz)).bind ?_
    rintro ys u ⟨hu, htu, hys⟩
    exact pure ⟨hu, trans hst htu, .cons (stable ht hu htu hy) hys⟩

/-- **A loop with a state that only grows.** The value that is carried along is described by `C`, given
the elements handled so far. -/
theorem foldlM {C : List γ → β → σ → Prop} (trans : ∀ {a b c}, L a b → L b c → L a c)
    {f : β → γ → StateT σ (Except ε) β} {xs : List γ} {b : β} {o : σ} {l : List γ} (hI : I s)
    (hle : L o s) (hb : C l b s)
    (step : ∀ ys x c t, I t → L o t → C ys c t →
      Achieves (sure ∧ x ∈ xs) (f c x) t fun c' t' => I t' ∧ L t t' ∧ C (ys ++ [x]) c' t') :
    Achieves sure (xs.foldlM f b) s fun c s' => I s' ∧ L o s' ∧ C (l ++ xs) c s' := by
  induction xs generalizing b s l with
  | nil =>
    rw [List.foldlM_nil]
    exact pure ⟨hI, hle, by rwa [List.append_nil]⟩
  | cons x xs ih =>
    rw [List.foldlM_cons]
    refine ((step l x b s hI hle hb).mono (fun h => ⟨h, List.mem_cons_self ..⟩)
      fun _ _ h => h).bind ?_
    rintro c t ⟨ht, hst, hc⟩
    have hrest := ih (l := l ++ [x]) ht (trans hle hst) hc fun ys z d u hu hle hd =>
      (step ys z d u hu hle hd).mono (fun h => ⟨h.1, List.mem_cons_of_mem _ h.2⟩) fun _ _ h => h
    rwa [List.append_assoc, List.singleton_append] at hrest

/-- **A loop without a value,** where `C` describes the state, given the elements handled so far. -/
theorem forM {C : List γ → σ → Prop} {f : γ → StateT σ (Except ε) Unit} {xs l : List γ} (hs : C l s)
    (step : ∀ ys x t, C ys t → Achieves (sure ∧ x ∈ xs) (f x) t fun _ t' => C (ys ++ [x]) t') :
    Achieves sure (xs.forM f) s fun _ s' => C (l ++ xs) s' := by
  induction xs generalizing s l with
  | nil =>
    rw [List.forM_eq_forM, List.forM_nil]
    exact pure (by rwa [List.append_nil])
  | cons x xs ih =>
    rw [List.forM_eq_forM, List.forM_cons, ← List.forM_eq_forM]
    refine ((step l x s hs).mono (fun h => ⟨h, List.mem_cons_self ..⟩) fun _ _ h => h).bind ?_
    intro _ t ht
    have hrest := ih (l := l ++ [x]) ht fun ys z u hu =>
      (step ys z u hu).mono (fun h => ⟨h.1, List.mem_cons_of_mem _ h.2⟩) fun _ _ h => h
    rwa [List.append_assoc, List.singleton_append] at hrest

/-- **A loop that keeps a property** of the state, over its own elements. -/
theorem forM_invariant {f : γ → StateT σ (Except ε) Unit} {xs : List γ} (hs : I s)
    (step : ∀ x ∈ xs, ∀ t, I t → Achieves sure (f x) t fun _ t' => I t') :
    Achieves sure (xs.forM f) s fun _ s' => I s' := by
  induction xs generalizing s with
  | nil =>
    rw [List.forM_eq_forM, List.forM_nil]
    exact pure hs
  | cons x xs ih =>
    rw [List.forM_eq_forM, List.forM_cons, ← List.forM_eq_forM]
    refine (step x (List.mem_cons_self ..) s hs).bind fun _ t ht => ?_
    exact ih ht fun y hy => step y (List.mem_cons_of_mem _ hy)

end Achieves

/-! ## (4) Steps that change a state in place -/

namespace InPlace

section Sequences

variable {x : InPlace σ γ} {f : γ → InPlace σ β} {s s' : σ}

/-- The second step starts from the result of the first one, and from the state after it. -/
theorem run_bind_ok {c : γ} (h : x.run.run s = (.ok c, s')) :
    (x >>= f).run.run s = (f c).run.run s' := by
  rw [ExceptT.run_bind, StateT.run_bind, h]
  rfl

/-- After a step that fails nothing else happens. -/
theorem run_bind_error {e : Error} (h : x.run.run s = (.error e, s')) :
    (x >>= f).run.run s = (.error e, s') := by
  rw [ExceptT.run_bind, StateT.run_bind, h]
  rfl

end Sequences

/-- The current state. -/
theorem finished_get_bind (f : σ → InPlace σ Unit) (s : σ) :
    finished ((MonadState.get : InPlace σ σ) >>= f) s = finished (f s) s := rfl

/-- A step that does not look at the state comes before the others or fails at once. -/
theorem finished_lift_bind (e : Except Error γ) (f : γ → InPlace σ Unit) (s : σ) :
    finished ((liftM e : InPlace σ γ) >>= f) s = e >>= fun c => finished (f c) s := by
  cases e <;> rfl

/-- A change that succeeds puts the new state in place, and one that fails leaves the former one. -/
theorem run_change (f : σ → Except Error σ) (s : σ) :
    (change f).run.run s = match f s with
      | .ok s' => (.ok (), s')
      | .error e => (.error e, s) := by
  have hlift : ∀ r : Except Error σ, (liftM r : InPlace σ σ).run.run s = (r, s) := fun _ => rfl
  show ((liftM (f s) : InPlace σ σ) >>= MonadStateOf.set).run.run s = _
  cases f s with
  | ok s' => exact run_bind_ok (hlift (.ok s'))
  | error e => exact run_bind_error (hlift (.error e))

/-- **Changes, one after the other,** end in the state that the functions lead to. -/
theorem finished_forM_change (f : γ → σ → Except Error σ) (xs : List γ) (s : σ) :
    finished (xs.forM fun x => change (f x)) s = xs.foldlM (fun s x => f x s) s := by
  induction xs generalizing s with
  | nil => rfl
  | cons x xs ih =>
    have hrun := run_change (f x) s
    rw [List.foldlM_cons, finished, List.forM_eq_forM, List.forM_cons, ← List.forM_eq_forM]
    cases h : f x s with
    | ok s' =>
      rw [h] at hrun
      rw [run_bind_ok hrun]
      exact ih s'
    | error e =>
      rw [h] at hrun
      rw [run_bind_error hrun]
      rfl

end InPlace

end Galerkin
