import Mathlib.Order.Basic
import Mathlib.Data.List.Nodup
import Mathlib.Data.List.Perm.Subperm

/-!
# Runs of a labelled step function

`step s e` is the state after the event `e` in `s`, and `none` where `e` cannot happen.
`run` takes a list of events. `Throughout P` says that `P` holds in every state of a run,
`Along C` that every step of it is taken under the condition `C`.

`throughout_of_along` is the invariant rule : a property that a step under `C` preserves
holds throughout every run whose steps meet `C`. `along_of_throughout` is its converse : if
a step that breaks `C` breaks the property, a run in which the property holds throughout
meets `C` along the way. `throughout_iff_along` is both.

`throughout_of_fresh` is the invariant rule for states that hold names, if no name is given twice,
and `throughout_of_times` the one for events that tell the time.
`nodup_collect` : names that steps make from a counter are not made twice, and `along_of_count`
keeps that counter below its end.

A system may record more of a run than another one does : `run_map` and its neighbours carry
what is shown of the one with the record over to the other.
-/

namespace Runs

variable {σ ε : Type*} (step : σ → ε → Option σ)

/-- The state after the events of a list, if each can happen in its turn. -/
def run : σ → List ε → Option σ
  | s, [] => some s
  | s, e :: es => (step s e).bind fun s' => run s' es

/-- Every step of the run from `s` is taken under `C`. -/
def Along (C : σ → ε → Prop) : σ → List ε → Prop
  | _, [] => True
  | s, e :: es => ∀ s', step s e = some s' → C s e ∧ Along C s' es

/-- `P` holds in every state of the run from `s`. -/
def Throughout (P : σ → Prop) : σ → List ε → Prop
  | s, [] => P s
  | s, e :: es => P s ∧ ∀ s', step s e = some s' → Throughout P s' es

/-- What the steps of the run from `s` yield, in order. -/
def collect {α : Type*} (yield : σ → ε → List α) : σ → List ε → List α
  | _, [] => []
  | s, e :: es =>
    match step s e with
    | none => []
    | some s' => yield s e ++ collect yield s' es

instance decidableAlong (C : σ → ε → Prop) [∀ s e, Decidable (C s e)] :
    ∀ s es, Decidable (Along step C s es)
  | _, [] => isTrue trivial
  | s, e :: es =>
    match h : step s e with
    | none => isTrue fun _ ht => nomatch h.symm.trans ht
    | some t =>
      have := decidableAlong C t es
      decidable_of_iff (C s e ∧ Along step C t es)
        ⟨fun hC _ ht' => Option.some.inj (h.symm.trans ht') ▸ hC, fun hA => hA t h⟩

variable {step}

@[simp] theorem run_nil (s : σ) : run step s [] = some s :=
  rfl

theorem run_cons (s : σ) (e : ε) (es : List ε) :
    run step s (e :: es) = (step s e).bind fun s' => run step s' es :=
  rfl

theorem run_cons_eq_some {s s' : σ} {e : ε} {es : List ε} :
    run step s (e :: es) = some s' ↔ ∃ t, step s e = some t ∧ run step t es = some s' := by
  rw [run_cons, Option.bind_eq_some_iff]

/-- A run of one list of events and then of another. -/
theorem run_append (es fs : List ε) : ∀ s : σ,
    run step s (es ++ fs) = (run step s es).bind fun t => run step t fs := by
  induction es with
  | nil => exact fun _ => rfl
  | cons e es ih =>
    intro s
    rw [List.cons_append, run_cons, run_cons, Option.bind_assoc]
    exact Option.bind_congr fun t _ => ih t

/-- Events that change nothing. -/
theorem run_eq_self {s : σ} {es : List ε} (h : ∀ e ∈ es, step s e = some s) :
    run step s es = some s := by
  induction es with
  | nil => rfl
  | cons e es ih =>
    obtain ⟨he, hes⟩ := List.forall_mem_cons.1 h
    exact run_cons_eq_some.2 ⟨s, he, ih hes⟩

/-- What one system does on the images of events, another does that follows it on each. -/
theorem run_map_of_imp {γ δ : Type*} {step' : σ → δ → Option σ} {f : γ → ε} {g : γ → δ}
    (h : ∀ s t x, step s (f x) = some t → step' s (g x) = some t) (xs : List γ) :
    ∀ {s t : σ}, run step s (xs.map f) = some t → run step' s (xs.map g) = some t := by
  induction xs with
  | nil => exact fun hr => hr
  | cons x xs ih =>
    intro s t hr
    obtain ⟨u, hu, hr⟩ := run_cons_eq_some.1 hr
    exact run_cons_eq_some.2 ⟨u, h s u x hu, ih hr⟩

/-- A system that does for each event what another one does for none or several, on a part of its
state. -/
theorem run_flatMap {τ δ : Type*} {step' : τ → δ → Option τ} {f : σ → τ} {g : ε → List δ}
    (h : ∀ s e t, step s e = some t → run step' (f s) (g e) = some (f t)) (es : List ε) :
    ∀ {s t : σ}, run step s es = some t → run step' (f s) (es.flatMap g) = some (f t) := by
  induction es with
  | nil =>
    rintro s t hr
    obtain rfl : s = t := by simpa using hr
    rfl
  | cons e es ih =>
    intro s t hr
    obtain ⟨u, hu, hr⟩ := run_cons_eq_some.1 hr
    rw [List.flatMap_cons, run_append, h s e u hu]
    exact ih hr

/-- If every event is the one that the state counts up to and raises the count, the events of a
run come in their order, each at most once. -/
theorem run_pairwise_lt {α : Type*} [Preorder α] {f : ε → α} {g : σ → α}
    (h : ∀ s e t, step s e = some t → f e = g s ∧ g s < g t) (es : List ε) :
    ∀ {s t : σ}, run step s es = some t →
      (es.map f).Pairwise (· < ·) ∧ ∀ e ∈ es, g s ≤ f e := by
  induction es with
  | nil => exact fun _ => ⟨.nil, fun _ he => nomatch he⟩
  | cons e es ih =>
    intro s t hr
    obtain ⟨u, hu, hr⟩ := run_cons_eq_some.1 hr
    obtain ⟨hf, hlt⟩ := h s e u hu
    obtain ⟨hpair, hge⟩ := ih hr
    have hlater : ∀ e' ∈ es, g s < f e' := fun e' he' => hlt.trans_le (hge e' he')
    refine ⟨List.pairwise_cons.2 ⟨fun x hx => ?_, hpair⟩, fun e' he' => ?_⟩
    · obtain ⟨e', he', rfl⟩ := List.mem_map.1 hx
      exact hf ▸ hlater e' he'
    · rcases List.mem_cons.1 he' with rfl | he'
      · exact hf.ge
      · exact (hlater e' he').le

theorem Throughout.head {P : σ → Prop} {s : σ} {es : List ε} (h : Throughout step P s es) :
    P s := by
  cases es with
  | nil => exact h
  | cons e es => exact h.1

/-- What holds throughout a run holds at its end. -/
theorem Throughout.last {P : σ → Prop} {es : List ε} :
    ∀ {s s' : σ}, Throughout step P s es → run step s es = some s' → P s' := by
  induction es with
  | nil =>
    rintro s s' h hr
    obtain rfl : s = s' := by simpa using hr
    exact h
  | cons e es ih =>
    intro s s' h hr
    obtain ⟨t, ht, hr⟩ := run_cons_eq_some.1 hr
    exact ih (h.2 t ht) hr

theorem Throughout.mono {P Q : σ → Prop} (hPQ : ∀ s, P s → Q s) {es : List ε} :
    ∀ {s : σ}, Throughout step P s es → Throughout step Q s es := by
  induction es with
  | nil => exact fun h => hPQ _ h
  | cons e es ih => exact fun h => ⟨hPQ _ h.1, fun t ht => ih (h.2 t ht)⟩

theorem Throughout.congr {I P Q : σ → Prop} {es : List ε} (hPQ : ∀ s, I s → (P s ↔ Q s)) :
    ∀ {s : σ}, Throughout step I s es → (Throughout step P s es ↔ Throughout step Q s es) := by
  induction es with
  | nil => exact fun h => hPQ _ h
  | cons e es ih =>
    exact fun h => and_congr (hPQ _ h.1) (forall₂_congr fun t ht => ih (h.2 t ht))

theorem Along.mono {C D : σ → ε → Prop} (hCD : ∀ s e, C s e → D s e) {es : List ε} :
    ∀ {s : σ}, Along step C s es → Along step D s es := by
  induction es with
  | nil => exact fun _ => trivial
  | cons e es ih => exact fun h t ht => ⟨hCD _ _ (h t ht).1, ih (h t ht).2⟩

theorem Along.and {C D : σ → ε → Prop} {es : List ε} :
    ∀ {s : σ}, Along step C s es → Along step D s es →
      Along step (fun s e => C s e ∧ D s e) s es := by
  induction es with
  | nil => exact fun _ _ => trivial
  | cons e es ih =>
    exact fun hC hD t ht => ⟨⟨(hC t ht).1, (hD t ht).1⟩, ih (hC t ht).2 (hD t ht).2⟩

/-- A condition on events alone that all events of a run meet. -/
theorem along_of_forall {C : ε → Prop} {es : List ε} (h : ∀ e ∈ es, C e) :
    ∀ {s : σ}, Along step (fun _ e => C e) s es := by
  induction es with
  | nil => exact trivial
  | cons e es ih =>
    obtain ⟨he, hes⟩ := List.forall_mem_cons.1 h
    exact fun t _ => ⟨he, ih hes⟩

/-- Each event of a run comes in the state that the events before it lead to, also after `xs`. -/
theorem along_append {s₀ : σ} (es : List ε) : ∀ {xs : List ε} {s : σ}, run step s₀ xs = some s →
    Along step (fun s e => ∃ ys zs, xs ++ es = ys ++ e :: zs ∧ run step s₀ ys = some s) s es := by
  induction es with
  | nil => exact fun _ => trivial
  | cons e es ih =>
    intro xs s hs t ht
    refine ⟨⟨xs, es, rfl, hs⟩, ?_⟩
    have hnext : run step s₀ (xs ++ [e]) = some t := by
      rw [run_append, hs]
      exact run_cons_eq_some.2 ⟨t, ht, rfl⟩
    rw [List.append_cons]
    exact ih hnext

/-- An event of a run comes in the state that the events before it lead to. -/
theorem along_self (s : σ) (es : List ε) : Along step (fun t e => ∃ xs ys, es = xs ++ e :: ys ∧
    run step s xs = some t) s es :=
  along_append es (run_nil s)

/-- The invariant rule, over the steps taken under `C`. -/
theorem throughout_of_along {P : σ → Prop} {C : σ → ε → Prop}
    (hstep : ∀ s e s', P s → C s e → step s e = some s' → P s') {es : List ε} :
    ∀ {s : σ}, P s → Along step C s es → Throughout step P s es := by
  induction es with
  | nil => exact fun hs _ => hs
  | cons e es ih =>
    exact fun hs h => ⟨hs, fun t ht => ih (hstep _ _ _ hs (h t ht).1 ht) (h t ht).2⟩

/-- The invariant rule, over all steps. -/
theorem throughout_of_step {P : σ → Prop} (hstep : ∀ s e s', P s → step s e = some s' → P s')
    (es : List ε) : ∀ {s : σ}, P s → Throughout step P s es := by
  induction es with
  | nil => exact fun hs => hs
  | cons e es ih => exact fun hs => ⟨hs, fun t ht => ih (hstep _ _ _ hs ht)⟩

/-- An invariant holds at the end of every run. -/
theorem run_preserves {P : σ → Prop} (hstep : ∀ s e s', P s → step s e = some s' → P s')
    {s s' : σ} {es : List ε} (hs : P s) (hr : run step s es = some s') : P s' :=
  (throughout_of_step hstep es hs).last hr

/-- An invariant of the states and of what has been yielded holds at the end of every run. -/
theorem run_collect {α : Type*} {yield : σ → ε → List α} {R : σ → List α → Prop}
    (hstep : ∀ s xs e s', R s xs → step s e = some s' → R s' (xs ++ yield s e)) {es : List ε} :
    ∀ {s s' : σ} {xs : List α}, R s xs → run step s es = some s' →
      R s' (xs ++ collect step yield s es) := by
  induction es with
  | nil =>
    rintro s s' xs h hr
    obtain rfl : s = s' := by simpa using hr
    simpa [collect] using h
  | cons e es ih =>
    intro s s' xs h hr
    obtain ⟨t, ht, hr⟩ := run_cons_eq_some.1 hr
    have hrest := ih (hstep s xs e t h ht) hr
    rw [collect, ht]
    simpa using hrest

/-- The condition that every step meets. -/
theorem along_true {es : List ε} {s : σ} : Along step (fun _ _ => True) s es :=
  along_of_forall (C := fun _ => True) fun _ _ => trivial

/-- If a step from a state with `P` that breaks `C` leads to a state without `P`, a run
with `P` throughout meets `C` along the way. `I` is an invariant that the steps under `H`
preserve while `P` holds. -/
theorem along_of_throughout {I P : σ → Prop} {H C : σ → ε → Prop}
    (hstep : ∀ s e s', I s → P s → H s e → step s e = some s' → P s' → I s' ∧ C s e)
    {es : List ε} : ∀ {s : σ}, I s → Along step H s es → Throughout step P s es →
      Along step C s es := by
  induction es with
  | nil => exact fun _ _ _ => trivial
  | cons e es ih =>
    intro s hI hH hP t ht
    have h := hstep s e t hI hP.1 (hH t ht).1 ht (hP.2 t ht).head
    exact ⟨h.2, ih h.1 (hH t ht).2 (hP.2 t ht)⟩

/-- The invariant rule for a system whose events tell the time : if a step keeps `I` up to the time
of its event, a run whose times do not go back keeps it. -/
theorem throughout_of_times {τ : Type*} [Preorder τ] {I : τ → σ → Prop} {Q : τ → Prop}
    (time : ε → Option τ)
    (hstep : ∀ t s e s', I t s → (∀ u ∈ time e, t ≤ u ∧ Q u) → step s e = some s' →
      I ((time e).getD t) s') {es : List ε} :
    ∀ {t : τ} {s : σ}, I t s → (t :: es.filterMap time).Pairwise (· ≤ ·) →
      (∀ u ∈ es.filterMap time, Q u) → Throughout step (fun s => ∃ t, I t s) s es := by
  induction es with
  | nil => exact fun h _ _ => ⟨_, h⟩
  | cons e es ih =>
    intro t s h htimes hQ
    refine ⟨⟨t, h⟩, fun s' hs => ?_⟩
    cases hu : time e with
    | none =>
      rw [List.filterMap_cons_none hu] at htimes hQ
      have h' := hstep t s e s' h (by simp [hu]) hs
      rw [hu] at h'
      exact ih h' htimes hQ
    | some u =>
      rw [List.filterMap_cons_some hu] at htimes hQ
      obtain ⟨hle, hrest⟩ := List.pairwise_cons.1 htimes
      obtain ⟨hu', hQ⟩ := List.forall_mem_cons.1 hQ
      have h' := hstep t s e s' h (by simpa [hu] using ⟨hle u List.mem_cons_self, hu'⟩) hs
      rw [hu] at h'
      exact ih h' hrest hQ

/-- If a step under `H` from a state with `I` and `P` keeps `I`, and keeps `P` exactly when it meets
`C`, a run under `H` has `P` throughout exactly when it meets `C` along the way. -/
theorem throughout_iff_along {I P : σ → Prop} {H C : σ → ε → Prop}
    (hstep : ∀ s e s', I s → P s → H s e → step s e = some s' → I s' ∧ (P s' ↔ C s e))
    {es : List ε} {s : σ} (hI : I s) (hP : P s) (hH : Along step H s es) :
    Throughout step P s es ↔ Along step C s es := by
  constructor
  · refine along_of_throughout (fun s e s' hI hP hH ht hP' => ?_) hI hH
    obtain ⟨hI', hiff⟩ := hstep s e s' hI hP hH ht
    exact ⟨hI', hiff.1 hP'⟩
  · intro hC
    refine (throughout_of_along (P := fun s => I s ∧ P s) (fun s e s' h hHC ht => ?_) ⟨hI, hP⟩
      (hH.and hC)).mono fun s h => h.2
    obtain ⟨hI', hiff⟩ := hstep s e s' h.1 h.2 hHC.1 ht
    exact ⟨hI', hiff.2 hHC.2⟩

/-- A run with `P` throughout, in which every step from a state with `B` leads to one without
`P`, is never in a state with `B` but at its end. -/
theorem throughout_not_of_step {P B : σ → Prop} {H : σ → ε → Prop}
    (hstep : ∀ s e s', B s → H s e → step s e = some s' → ¬P s') {s' : σ} (hlast : ¬B s')
    {es : List ε} : ∀ {s : σ}, Along step H s es → Throughout step P s es →
      run step s es = some s' → Throughout step (fun s => ¬B s) s es := by
  induction es with
  | nil =>
    intro s _ _ hr
    obtain rfl : s = s' := by simpa using hr
    exact hlast
  | cons e es ih =>
    intro s hH hP hr
    obtain ⟨t, ht, hr⟩ := run_cons_eq_some.1 hr
    refine ⟨fun hB => hstep s e t hB (hH t ht).1 ht (hP.2 t ht).head, fun t' ht' => ?_⟩
    obtain rfl := Option.some.inj (ht.symm.trans ht')
    exact ih (hH t ht).2 (hP.2 t ht) hr

/-- If a step under `H` from a state with `I` keeps `I` and meets `C` exactly when it meets `D`, a
run under `H` meets the one along the way exactly when it meets the other. -/
theorem along_iff_along {I : σ → Prop} {H C D : σ → ε → Prop}
    (hstep : ∀ s e s', I s → H s e → step s e = some s' → I s' ∧ (C s e ↔ D s e)) {es : List ε} :
    ∀ {s : σ}, I s → Along step H s es → (Along step C s es ↔ Along step D s es) := by
  induction es with
  | nil => exact fun _ _ => Iff.rfl
  | cons e es ih =>
    intro s hI hH
    refine forall₂_congr fun t ht => ?_
    obtain ⟨hI', hiff⟩ := hstep s e t hI (hH t ht).1 ht
    exact and_congr hiff (ih hI' (hH t ht).2)

/-- What every step under `H` from a state with `I` meets, a run under `H` meets along the way. -/
theorem along_of_step {I : σ → Prop} {H C : σ → ε → Prop}
    (hstep : ∀ s e s', I s → H s e → step s e = some s' → I s' ∧ C s e) {es : List ε} {s : σ}
    (hI : I s) (hH : Along step H s es) : Along step C s es := by
  refine (along_iff_along (D := fun _ _ => True) (fun s e s' hs he ht => ?_) hI hH).2 along_true
  obtain ⟨hI', hC⟩ := hstep s e s' hs he ht
  exact ⟨hI', iff_of_true hC trivial⟩

/-! ## Names that are given once -/

/-- The invariant rule for states that hold names : if a step that is given new names keeps `I` and
holds no name but these and the old ones, a run that is given no name twice keeps `I`. -/
theorem throughout_of_fresh {α : Type*} {I : σ → Prop} (given : ε → List α) (held : σ → List α)
    (hstep : ∀ s e s', I s → (given e ++ held s).Nodup → step s e = some s' →
      I s' ∧ (held s').Subperm (given e ++ held s)) {es : List ε} :
    ∀ {s : σ}, I s → (es.flatMap given ++ held s).Nodup → Throughout step I s es := by
  induction es with
  | nil => exact fun hs _ => hs
  | cons e es ih =>
    intro s hs hnodup
    rw [List.flatMap_cons, List.append_assoc] at hnodup
    have hnew : (given e ++ held s).Nodup :=
      hnodup.sublist ((List.Sublist.refl _).append (List.sublist_append_right _ _))
    refine ⟨hs, fun t ht => ?_⟩
    obtain ⟨ht', hheld⟩ := hstep s e t hs hnew ht
    refine ih ht' ?_
    -- what is held after the step is part of what was given in it or held before
    have hperm : (es.flatMap given ++ (given e ++ held s)).Perm
        (given e ++ (es.flatMap given ++ held s)) := by
      rw [← List.append_assoc, ← List.append_assoc]
      exact List.perm_append_comm.append_right _
    obtain ⟨xs, hxs, hsub⟩ := (List.Subperm.refl (es.flatMap given)).append hheld
    exact hxs.nodup_iff.1 ((hperm.nodup_iff.2 hnodup).sublist hsub)

/-- If every name that a step yields has a number, and this is one that the step's counter runs
through, the names that a run yields are different. -/
theorem nodup_collect {α : Type*} {yield : σ → ε → List α} {I : σ → Prop} {H : σ → ε → Prop}
    (count : σ → ℕ) (number : α → ℕ → Prop)
    (hnumber : ∀ x k l, number x k → number x l → k = l)
    (hstep : ∀ s e s', I s → H s e → step s e = some s' → I s' ∧ count s ≤ count s' ∧
      (yield s e).Nodup ∧ ∀ x ∈ yield s e, ∃ k, number x k ∧ count s ≤ k ∧ k < count s')
    {es : List ε} : ∀ {s : σ}, I s → Along step H s es →
      (collect step yield s es).Nodup ∧
        ∀ x ∈ collect step yield s es, ∃ k, number x k ∧ count s ≤ k := by
  induction es with
  | nil => exact fun _ _ => ⟨List.nodup_nil, fun x hx => absurd hx List.not_mem_nil⟩
  | cons e es ih =>
    intro s hI hH
    unfold collect
    cases ht : step s e with
    | none => exact ⟨List.nodup_nil, fun x hx => absurd hx List.not_mem_nil⟩
    | some t =>
      obtain ⟨hI', hle, hnodup, hnew⟩ := hstep s e t hI (hH t ht).1 ht
      obtain ⟨hrest, hlater⟩ := ih hI' (hH t ht).2
      refine ⟨hnodup.append hrest fun x hx hx' => ?_, fun x hx => ?_⟩
      · obtain ⟨k, hk, -, hlt⟩ := hnew x hx
        obtain ⟨l, hl, hge⟩ := hlater x hx'
        have := hnumber x k l hk hl
        omega
      · rcases List.mem_append.1 hx with hx | hx
        · obtain ⟨k, hk, hge, -⟩ := hnew x hx
          exact ⟨k, hk, hge⟩
        · obtain ⟨k, hk, hge⟩ := hlater x hx
          exact ⟨k, hk, Nat.le_trans hle hge⟩

/-- A counter that the steps of some events move on by at most one, in a run with fewer of these
events than the counter has left. -/
theorem along_of_count {I : σ → Prop} (count : σ → ℕ) (counted : ε → Bool) {N : ℕ}
    (hstep : ∀ s e s', I s → step s e = some s' →
      I s' ∧ count s' ≤ count s + if counted e then 1 else 0) {es : List ε} :
    ∀ {s : σ}, I s → count s + es.countP counted < N →
      Along step (fun s e => counted e = true → count s + 1 < N) s es := by
  induction es with
  | nil => exact fun _ _ => trivial
  | cons e es ih =>
    intro s hI hlt t ht
    obtain ⟨hI', hle⟩ := hstep s e t hI ht
    rw [List.countP_cons] at hlt
    refine ⟨fun he => ?_, ih hI' (by omega)⟩
    rw [if_pos he] at hlt
    omega

/-! ## Systems that record more -/

section Map

variable {τ : Type*} {step' : τ → ε → Option τ} {f : τ → σ}
  (hf : ∀ t e, (step' t e).map f = step (f t) e)

include hf

/-- A system that only records more than another has the same runs. -/
theorem run_map (es : List ε) : ∀ t, (run step' t es).map f = run step (f t) es := by
  induction es with
  | nil => exact fun _ => rfl
  | cons e es ih =>
    intro t
    rw [run_cons, run_cons, ← hf, Option.map_bind, Option.bind_map]
    exact Option.bind_congr fun t' _ => ih t'

theorem throughout_map {P : σ → Prop} {es : List ε} :
    ∀ {t : τ}, Throughout step P (f t) es ↔ Throughout step' (fun t => P (f t)) t es := by
  induction es with
  | nil => exact Iff.rfl
  | cons e es ih =>
    intro t
    refine and_congr_right fun _ => ?_
    rw [← hf]
    simp only [Option.map_eq_some_iff, forall_exists_index, and_imp, forall_apply_eq_imp_iff₂]
    exact forall₂_congr fun t' _ => ih

theorem along_map {C : σ → ε → Prop} {es : List ε} :
    ∀ {t : τ}, Along step C (f t) es ↔ Along step' (fun t => C (f t)) t es := by
  induction es with
  | nil => exact Iff.rfl
  | cons e es ih =>
    intro t
    show (∀ s', step (f t) e = some s' → _) ↔ ∀ t', step' t e = some t' → _
    rw [← hf]
    simp only [Option.map_eq_some_iff, forall_exists_index, and_imp, forall_apply_eq_imp_iff₂]
    exact forall₂_congr fun t' _ => and_congr_right fun _ => ih

end Map

/-- A run that ends in a state without `P`, as a test `p` of its end shows. -/
theorem not_throughout {P : σ → Prop} {p : σ → Bool} (hp : ∀ s, p s = true → ¬P s) {s : σ}
    {es : List ε} (h : (run step s es).any p = true) : ¬Throughout step P s es := by
  obtain ⟨t, ht, hpt⟩ := (Option.any_eq_true _ _).1 h
  exact fun hP => hp t hpt (hP.last ht)

end Runs
