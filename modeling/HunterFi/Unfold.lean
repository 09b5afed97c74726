import HunterFi.Async

/-!
# What a handler goes through

`Unfolds p xs q` says that the handler `p`, after exchanging the calls and replies `xs`, goes
on as `q`, whatever the states are that it has met on the way. It gives up the states to be
compositional : `unfolds_bind` and its neighbours take the exchanges of a composition apart
into those of its parts. `Submits C` says that all calls of a handler are in `C`.

`replay` keeps the states : it is how a handler stands after given turns, and so a function.
`unfolds_segment` and `replay_snoc` tie both to the segments of a handler.
-/

namespace Async

variable {ι σ κ ρ ε ε' α β : Type}

/-! ## Exchanges -/

/-- Calls with their replies. -/
structure Exchange (κ ρ : Type) : Type where
  calls : List κ
  replies : List ρ

/-- After the exchanges the handler goes on as another one. Every call has a reply. -/
inductive Unfolds : Async ι σ κ ρ ε α → List (Exchange κ ρ) → Async ι σ κ ρ ε α → Prop
  | refl (p : Async ι σ κ ρ ε α) : Unfolds p [] p
  | access {f : ι → σ → σ} {k : ι → σ → Async ι σ κ ρ ε α} (i : ι) (s : σ)
    {xs : List (Exchange κ ρ)} {q : Async ι σ κ ρ ε α} (h : Unfolds (k i s) xs q) :
    Unfolds (access f k) xs q
  | call {cs : List κ} {k : List ρ → Async ι σ κ ρ ε α} (rs : List ρ)
    (hlen : rs.length = cs.length) {xs : List (Exchange κ ρ)} {q : Async ι σ κ ρ ε α}
    (h : Unfolds (k rs) xs q) : Unfolds (call cs k) (⟨cs, rs⟩ :: xs) q

variable {p p' q : Async ι σ κ ρ ε α} {xs ys : List (Exchange κ ρ)} {cs : List κ}
  {k : List ρ → Async ι σ κ ρ ε α}

theorem Unfolds.trans (h : Unfolds p xs p') (h' : Unfolds p' ys q) : Unfolds p (xs ++ ys) q := by
  induction h with
  | refl p => exact h'
  | access i s h ih => exact .access i s (ih h')
  | call rs hlen h ih => exact .call rs hlen (ih h')

/-- One more exchange. -/
theorem Unfolds.snoc (h : Unfolds p xs (.call cs k)) {rs : List ρ}
    (hlen : rs.length = cs.length) : Unfolds p (xs ++ [⟨cs, rs⟩]) (k rs) :=
  h.trans (.call rs hlen (.refl _))

@[simp] theorem unfolds_ret {a : α} :
    Unfolds (ret a : Async ι σ κ ρ ε α) xs q ↔ xs = [] ∧ q = ret a := by
  constructor
  · rintro ⟨⟩
    exact ⟨rfl, rfl⟩
  · rintro ⟨rfl, rfl⟩
    exact .refl _

@[simp] theorem unfolds_fail {e : ε} :
    Unfolds (fail e : Async ι σ κ ρ ε α) xs q ↔ xs = [] ∧ q = fail e := by
  constructor
  · rintro ⟨⟩
    exact ⟨rfl, rfl⟩
  · rintro ⟨rfl, rfl⟩
    exact .refl _

/-- A handler that submits calls goes on once they have replies. -/
theorem unfolds_call : Unfolds (.call cs k) xs q ↔
    (xs = [] ∧ q = .call cs k) ∨
      ∃ rs ys, rs.length = cs.length ∧ xs = ⟨cs, rs⟩ :: ys ∧ Unfolds (k rs) ys q := by
  constructor
  · rintro (_ | _ | ⟨rs, hlen, h⟩)
    · exact Or.inl ⟨rfl, rfl⟩
    · exact Or.inr ⟨rs, _, hlen, rfl, h⟩
  · rintro (⟨rfl, rfl⟩ | ⟨rs, ys, hlen, rfl, h⟩)
    · exact .refl _
    · exact .call rs hlen h

/-! ## Composition -/

/-- A composition is in its first part, or past it. -/
theorem unfolds_bind {p : Async ι σ κ ρ ε α} {q : α → Async ι σ κ ρ ε β}
    {r : Async ι σ κ ρ ε β} (h : Unfolds (p.bind q) xs r) :
    (∃ p', Unfolds p xs p' ∧ r = p'.bind q) ∨
      ∃ a ys zs, xs = ys ++ zs ∧ Unfolds p ys (ret a) ∧ Unfolds (q a) zs r := by
  induction p generalizing xs with
  | ret a => exact Or.inr ⟨a, [], xs, rfl, .refl _, h⟩
  | fail e =>
    obtain ⟨rfl, rfl⟩ := unfolds_fail.1 h
    exact Or.inl ⟨fail e, .refl _, rfl⟩
  | access f k ih =>
    rcases h with _ | ⟨i, s, h⟩
    · exact Or.inl ⟨access f k, .refl _, rfl⟩
    · rcases ih i s h with ⟨p', hp, rfl⟩ | ⟨a, ys, zs, rfl, hp, hq⟩
      · exact Or.inl ⟨p', .access i s hp, rfl⟩
      · exact Or.inr ⟨a, ys, zs, rfl, .access i s hp, hq⟩
  | call cs k ih =>
    rcases unfolds_call.1 h with ⟨rfl, rfl⟩ | ⟨rs, ys, hlen, rfl, hrest⟩
    · exact Or.inl ⟨call cs k, .refl _, rfl⟩
    · rcases ih rs hrest with ⟨p', hp, rfl⟩ | ⟨a, ys, zs, rfl, hp, hq⟩
      · exact Or.inl ⟨p', .call rs hlen hp, rfl⟩
      · exact Or.inr ⟨a, ⟨cs, rs⟩ :: ys, zs, rfl, .call rs hlen hp, hq⟩

/-- A composition awaits replies in its first part, or in the second. -/
theorem unfolds_bind_call {p : Async ι σ κ ρ ε α} {q : α → Async ι σ κ ρ ε β}
    {k : List ρ → Async ι σ κ ρ ε β} (h : Unfolds (p.bind q) xs (.call cs k)) :
    (∃ k', Unfolds p xs (.call cs k') ∧ k = fun rs => (k' rs).bind q) ∨
      ∃ a ys zs, xs = ys ++ zs ∧ Unfolds p ys (ret a) ∧ Unfolds (q a) zs (.call cs k) := by
  rcases unfolds_bind h with ⟨p', hp, heq⟩ | hq
  · cases p' with
    | ret a => exact Or.inr ⟨a, xs, [], (List.append_nil xs).symm, hp, heq ▸ .refl _⟩
    | fail e => cases heq
    | access f k' => cases heq
    | call cs' k' =>
      obtain ⟨rfl, rfl⟩ : cs = cs' ∧ k = fun rs => (k' rs).bind q := by simpa [bind] using heq
      exact Or.inl ⟨k', hp, rfl⟩
  · exact Or.inr hq

/-- A composition returns in its second part. -/
theorem unfolds_bind_ret {p : Async ι σ κ ρ ε α} {q : α → Async ι σ κ ρ ε β} {b : β}
    (h : Unfolds (p.bind q) xs (ret b)) :
    ∃ a ys zs, xs = ys ++ zs ∧ Unfolds p ys (ret a) ∧ Unfolds (q a) zs (ret b) := by
  rcases unfolds_bind h with ⟨p', hp, heq⟩ | hq
  · cases p' with
    | ret a => exact ⟨a, xs, [], (List.append_nil xs).symm, hp, heq ▸ .refl _⟩
    | fail e => cases heq
    | access f k' => cases heq
    | call cs' k' => cases heq
  · exact hq

/-- A composition fails in its first part, or in the second. -/
theorem unfolds_bind_fail {p : Async ι σ κ ρ ε α} {q : α → Async ι σ κ ρ ε β} {e : ε}
    (h : Unfolds (p.bind q) xs (fail e)) : Unfolds p xs (fail e) ∨
      ∃ a ys zs, xs = ys ++ zs ∧ Unfolds p ys (ret a) ∧ Unfolds (q a) zs (fail e) := by
  rcases unfolds_bind h with ⟨p', hp, heq⟩ | hq
  · cases p' with
    | ret a => exact Or.inr ⟨a, xs, [], (List.append_nil xs).symm, hp, heq ▸ .refl _⟩
    | fail e' =>
      obtain rfl : e = e' := by simpa [bind] using heq
      exact Or.inl hp
    | access f k' => cases heq
    | call cs' k' => cases heq
  · exact Or.inr hq

/-- What `F` makes of a handler differs from it in how it ends only. -/
structure EndsOtherwise (F : Async ι σ κ ρ ε α → Async ι σ κ ρ ε' β) : Prop where
  ret : ∀ a xs r, Unfolds (F (ret a)) xs r → xs = [] ∧ r = F (ret a)
  fail : ∀ e xs r, Unfolds (F (fail e)) xs r → xs = [] ∧ r = F (fail e)
  access : ∀ f k, F (access f k) = access f fun i s => F (k i s)
  call : ∀ cs k, F (call cs k) = call cs fun rs => F (k rs)

/-- It has the exchanges of that handler. -/
theorem unfolds_of_endsOtherwise {F : Async ι σ κ ρ ε α → Async ι σ κ ρ ε' β}
    (hF : EndsOtherwise F) {r : Async ι σ κ ρ ε' β} (h : Unfolds (F p) xs r) :
    ∃ p', Unfolds p xs p' ∧ r = F p' := by
  induction p generalizing xs with
  | ret a =>
    obtain ⟨rfl, rfl⟩ := hF.ret a xs r h
    exact ⟨ret a, .refl _, rfl⟩
  | fail e =>
    obtain ⟨rfl, rfl⟩ := hF.fail e xs r h
    exact ⟨fail e, .refl _, rfl⟩
  | access f k ih =>
    rw [hF.access] at h
    rcases h with _ | ⟨i, s, h⟩
    · exact ⟨access f k, .refl _, (hF.access f k).symm⟩
    · obtain ⟨p', hp, rfl⟩ := ih i s h
      exact ⟨p', .access i s hp, rfl⟩
  | call cs k ih =>
    rw [hF.call] at h
    rcases unfolds_call.1 h with ⟨rfl, rfl⟩ | ⟨rs, ys, hlen, rfl, hrest⟩
    · exact ⟨call cs k, .refl _, (hF.call cs k).symm⟩
    · obtain ⟨p', hp, rfl⟩ := ih rs hrest
      exact ⟨p', .call rs hlen hp, rfl⟩

/-- The exchanges of a handler are those it has without its failure being caught. -/
theorem unfolds_attempt {r : Async ι σ κ ρ ε' (Except ε α)} (h : Unfolds p.attempt xs r) :
    ∃ p', Unfolds p xs p' ∧ r = p'.attempt := by
  have hends : EndsOtherwise (attempt : Async ι σ κ ρ ε α → Async ι σ κ ρ ε' (Except ε α)) :=
    ⟨fun _ _ _ => unfolds_ret.1, fun _ _ _ => unfolds_ret.1, fun _ _ => rfl, fun _ _ => rfl⟩
  exact unfolds_of_endsOtherwise hends h

theorem unfolds_attempt_call {k : List ρ → Async ι σ κ ρ ε' (Except ε α)}
    (h : Unfolds p.attempt xs (.call cs k)) :
    ∃ k', Unfolds p xs (.call cs k') ∧ k = fun rs => (k' rs).attempt := by
  obtain ⟨p', hp, heq⟩ := unfolds_attempt h
  cases p' with
  | call cs' k' =>
    obtain ⟨rfl, rfl⟩ : cs = cs' ∧ k = fun rs => (k' rs).attempt := by simpa [attempt] using heq
    exact ⟨k', hp, rfl⟩
  | _ => cases heq

theorem unfolds_attempt_ret {r : Except ε α}
    (h : Unfolds (p.attempt : Async ι σ κ ρ ε' (Except ε α)) xs (ret r)) :
    Unfolds p xs (ofExcept r) := by
  obtain ⟨p', hp, heq⟩ := unfolds_attempt h
  cases p' with
  | ret a =>
    obtain rfl : r = .ok a := by simpa [attempt] using heq
    exact hp
  | fail e =>
    obtain rfl : r = .error e := by simpa [attempt] using heq
    exact hp
  | access f k' => cases heq
  | call cs' k' => cases heq

theorem unfolds_mapError_call {g : ε → ε'} {k : List ρ → Async ι σ κ ρ ε' α}
    (h : Unfolds (p.mapError g) xs (.call cs k)) :
    ∃ k', Unfolds p xs (.call cs k') ∧ k = fun rs => (k' rs).mapError g := by
  rcases unfolds_bind_call h with ⟨k', hk, rfl⟩ | ⟨r, ys, zs, -, -, hr⟩
  · obtain ⟨k'', hk'', rfl⟩ := unfolds_attempt_call hk
    exact ⟨k'', hk'', rfl⟩
  · cases r with
    | ok a => cases (unfolds_ret.1 hr).2
    | error e => cases (unfolds_fail.1 hr).2

theorem unfolds_mapError_ret {g : ε → ε'} {a : α}
    (h : Unfolds (p.mapError g) xs (ret a : Async ι σ κ ρ ε' α)) : Unfolds p xs (ret a) := by
  obtain ⟨r, ys, zs, rfl, hp, hr⟩ := unfolds_bind_ret h
  cases r with
  | ok b =>
    obtain ⟨rfl, hb⟩ := unfolds_ret.1 hr
    cases hb
    rw [List.append_nil]
    exact unfolds_attempt_ret hp
  | error e => cases (unfolds_fail.1 hr).2

theorem unfolds_mapError_fail {g : ε → ε'} {e' : ε'}
    (h : Unfolds (p.mapError g) xs (fail e' : Async ι σ κ ρ ε' α)) :
    ∃ e, Unfolds p xs (fail e) := by
  rcases unfolds_bind_fail h with hp | ⟨r, ys, zs, rfl, hp, hr⟩
  · obtain ⟨p', -, heq⟩ := unfolds_attempt hp
    cases p' <;> cases heq
  · cases r with
    | ok b => cases (unfolds_ret.1 hr).2
    | error e =>
      obtain ⟨rfl, -⟩ := unfolds_fail.1 hr
      rw [List.append_nil]
      exact ⟨e, unfolds_attempt_ret hp⟩

/-- The exchanges of a handler are those it has without what is made of its end. -/
theorem unfolds_mapError_bind {p : Async ι σ κ ρ ε α} {g : ε → ε'} {f : α → β}
    {r : Async ι σ κ ρ ε' β} (h : Unfolds ((p.mapError g).bind fun a => ret (f a)) xs r) :
    ∃ p', Unfolds p xs p' ∧ r = (p'.mapError g).bind fun a => ret (f a) := by
  have hends : EndsOtherwise fun p : Async ι σ κ ρ ε α => (p.mapError g).bind fun a => ret (f a) :=
    ⟨fun _ _ _ => unfolds_ret.1, fun _ _ _ => unfolds_fail.1, fun _ _ => rfl, fun _ _ => rfl⟩
  exact unfolds_of_endsOtherwise hends h

/-! ## Steps that make no call -/

/-- The handler is not about to access the state. -/
def Stops : Async ι σ κ ρ ε α → Prop
  | access _ _ => False
  | _ => True

theorem unfolds_access {f : ι → σ → σ} {k : ι → σ → Async ι σ κ ρ ε α}
    (h : Unfolds (access f k) xs q) (hq : q.Stops) : ∃ i s, Unfolds (k i s) xs q := by
  rcases h with _ | ⟨i, s, h⟩
  · exact hq.elim
  · exact ⟨i, s, h⟩

theorem unfolds_env_bind {q : ι → Async ι σ κ ρ ε α} {r : Async ι σ κ ρ ε α}
    (h : Unfolds ((env : Async ι σ κ ρ ε ι).bind q) xs r) (hr : r.Stops) :
    ∃ i, Unfolds (q i) xs r := by
  obtain ⟨i, _, hq⟩ := unfolds_access h hr
  exact ⟨i, hq⟩

theorem unfolds_get_bind {q : σ → Async ι σ κ ρ ε α} {r : Async ι σ κ ρ ε α}
    (h : Unfolds ((get : Async ι σ κ ρ ε σ).bind q) xs r) (hr : r.Stops) :
    ∃ s, Unfolds (q s) xs r := by
  obtain ⟨_, s, hq⟩ := unfolds_access h hr
  exact ⟨s, hq⟩

theorem unfolds_modify_bind {f : ι → σ → σ} {q : Unit → Async ι σ κ ρ ε α}
    {r : Async ι σ κ ρ ε α} (h : Unfolds ((modify f).bind q) xs r) (hr : r.Stops) :
    Unfolds (q ()) xs r := by
  obtain ⟨_, _, hq⟩ := unfolds_access h hr
  exact hq

theorem unfolds_ofExcept_bind {x : Except ε α} {q : α → Async ι σ κ ρ ε β}
    {r : Async ι σ κ ρ ε β} (h : Unfolds ((ofExcept x).bind q) xs r) :
    (∃ e, x = .error e ∧ xs = [] ∧ r = fail e) ∨ ∃ a, x = .ok a ∧ Unfolds (q a) xs r := by
  cases x with
  | ok a => exact Or.inr ⟨a, rfl, h⟩
  | error e => exact Or.inl ⟨e, rfl, unfolds_fail.1 h⟩

theorem unfolds_check_bind {f : ι → σ → Except ε Unit} {q : Unit → Async ι σ κ ρ ε α}
    {r : Async ι σ κ ρ ε α} (h : Unfolds ((check f).bind q) xs r) (hr : r.Stops) :
    (∃ e, xs = [] ∧ r = fail e) ∨ Unfolds (q ()) xs r := by
  obtain ⟨i, s, hf⟩ := unfolds_access h hr
  rcases unfolds_ofExcept_bind hf with ⟨e, -, he⟩ | ⟨_, -, hq⟩
  · exact Or.inl ⟨e, he⟩
  · exact Or.inr hq

/-- An update awaits nothing. -/
theorem not_unfolds_update {f : ι → σ → Except ε σ} {k : List ρ → Async ι σ κ ρ ε Unit} :
    ¬Unfolds (update f) xs (.call cs k) := by
  intro h
  obtain ⟨i, s, h⟩ := unfolds_access h trivial
  cases hf : (f i s).map fun _ => () with
  | ok a =>
    rw [hf] at h
    cases (unfolds_ret.1 h).2
  | error e =>
    rw [hf] at h
    cases (unfolds_fail.1 h).2

/-- An update whose failure is caught, and what follows it. -/
theorem unfolds_update_attempt_bind {f : ι → σ → Except ε σ}
    {q : Except ε Unit → Async ι σ κ ρ ε' β} {r : Async ι σ κ ρ ε' β}
    (h : Unfolds ((update f : Async ι σ κ ρ ε Unit).attempt.bind q) xs r) (hr : r.Stops) :
    ∃ x, Unfolds (q x) xs r := by
  obtain ⟨i, s, hs⟩ := unfolds_access h hr
  change Unfolds ((ofExcept ((f i s).map fun _ => ())).attempt.bind q) xs r at hs
  cases hf : (f i s).map fun _ => () with
  | ok a =>
    rw [hf] at hs
    exact ⟨.ok a, hs⟩
  | error e =>
    rw [hf] at hs
    exact ⟨.error e, hs⟩

/-- A job, and what follows its result. -/
theorem unfolds_run_bind [Inhabited ρ] {j : Job κ ρ ε α} {q : α → Async ι σ κ ρ ε β}
    {r : Async ι σ κ ρ ε β} (h : Unfolds (j.run.bind q) xs r) :
    (xs = [] ∧ r = j.run.bind q) ∨ ∃ reply ys, xs = ⟨[j.call], [reply]⟩ :: ys ∧
      ((∃ e, j.outcome reply = .error e ∧ ys = [] ∧ r = fail e) ∨
        ∃ a, j.outcome reply = .ok a ∧ Unfolds (q a) ys r) := by
  rcases unfolds_call.1 h with hcall | ⟨rs, ys, hlen, rfl, hq⟩
  · exact Or.inl hcall
  obtain ⟨reply, rfl⟩ := List.length_eq_one_iff.1 hlen
  exact Or.inr ⟨reply, ys, rfl, unfolds_ofExcept_bind hq⟩

/-- A job with another error, and what follows it. -/
theorem unfolds_run_mapError_bind [Inhabited ρ] {j : Job κ ρ ε α} {g : ε → ε'}
    {q : α → Async ι σ κ ρ ε' β} {r : Async ι σ κ ρ ε' β}
    (h : Unfolds ((j.run.mapError g).bind q) xs r) :
    (xs = [] ∧ r = (j.run.mapError g).bind q) ∨ ∃ reply ys, xs = ⟨[j.call], [reply]⟩ :: ys ∧
      ((∃ e, j.outcome reply = .error e ∧ ys = [] ∧ r = fail (g e)) ∨
        ∃ a, j.outcome reply = .ok a ∧ Unfolds (q a) ys r) := by
  rcases unfolds_call.1 h with hcall | ⟨rs, ys, hlen, rfl, hq⟩
  · exact Or.inl hcall
  obtain ⟨reply, rfl⟩ := List.length_eq_one_iff.1 hlen
  refine Or.inr ⟨reply, ys, rfl, ?_⟩
  have hq' : Unfolds (((ofExcept (j.outcome reply)).mapError g).bind q) ys r := hq
  cases hj : j.outcome reply with
  | ok a =>
    rw [hj] at hq'
    exact Or.inr ⟨a, rfl, hq'⟩
  | error e =>
    rw [hj] at hq'
    exact Or.inl ⟨e, rfl, unfolds_fail.1 hq'⟩

/-! ## The calls of a handler -/

/-- Every call that the handler submits is in `C`. -/
def Submits (C : κ → Prop) (p : Async ι σ κ ρ ε α) : Prop :=
  ∀ xs cs k, Unfolds p xs (.call cs k) → ∀ c ∈ cs, C c

variable {C : κ → Prop}

/-- The calls exchanged are calls submitted. -/
theorem Submits.exchanged (hp : p.Submits C) (h : Unfolds p xs q) :
    ∀ x ∈ xs, ∀ c ∈ x.calls, C c := by
  induction h with
  | refl p => simp
  | access i s h ih => exact ih fun xs cs k hk => hp xs cs k (.access i s hk)
  | call rs hlen h ih =>
    refine List.forall_mem_cons.2 ⟨hp [] _ _ (.refl _), ih fun xs cs k hk => ?_⟩
    exact hp _ cs k (.call rs hlen hk)

theorem Submits.mono {D : κ → Prop} (hCD : ∀ c, C c → D c) (hp : p.Submits C) : p.Submits D :=
  fun xs cs k h c hc => hCD c (hp xs cs k h c hc)

theorem Submits.bind {p : Async ι σ κ ρ ε α} {q : α → Async ι σ κ ρ ε β} (hp : p.Submits C)
    (hq : ∀ a, (q a).Submits C) : (p >>= q).Submits C := by
  intro xs cs k h
  rcases unfolds_bind_call h with ⟨k', hk, -⟩ | ⟨a, ys, zs, -, -, hk⟩
  · exact hp _ _ _ hk
  · exact hq a _ _ _ hk

theorem Submits.attempt (hp : p.Submits C) :
    (p.attempt : Async ι σ κ ρ ε' (Except ε α)).Submits C := by
  intro xs cs k h
  obtain ⟨k', hk, -⟩ := unfolds_attempt_call h
  exact hp _ _ _ hk

theorem Submits.mapError (g : ε → ε') (hp : p.Submits C) : (p.mapError g).Submits C := by
  intro xs cs k h
  obtain ⟨k', hk, -⟩ := unfolds_mapError_call h
  exact hp _ _ _ hk

theorem submits_ret (a : α) : (ret a : Async ι σ κ ρ ε α).Submits C :=
  fun _ _ _ h => nomatch (unfolds_ret.1 h).2

theorem submits_fail (e : ε) : (fail e : Async ι σ κ ρ ε α).Submits C :=
  fun _ _ _ h => nomatch (unfolds_fail.1 h).2

theorem submits_ofExcept (r : Except ε α) : (ofExcept r : Async ι σ κ ρ ε α).Submits C := by
  cases r with
  | ok a => exact submits_ret a
  | error e => exact submits_fail e

theorem submits_access {f : ι → σ → σ} {k : ι → σ → Async ι σ κ ρ ε α}
    (hk : ∀ i s, (k i s).Submits C) : (access f k).Submits C := by
  rintro xs cs k' (_ | ⟨i, s, h⟩)
  exact hk i s _ _ _ h

theorem submits_call (hcs : ∀ c ∈ cs, C c) (hk : ∀ rs, (k rs).Submits C) :
    (call cs k).Submits C := by
  intro xs cs' k' h
  rcases unfolds_call.1 h with ⟨-, heq⟩ | ⟨rs, ys, -, -, h⟩
  · cases heq
    exact hcs
  · exact hk rs _ _ _ h

theorem submits_env : (env : Async ι σ κ ρ ε ι).Submits C :=
  submits_access fun _ _ => submits_ret _

theorem submits_get : (get : Async ι σ κ ρ ε σ).Submits C :=
  submits_access fun _ _ => submits_ret _

theorem submits_modify (f : ι → σ → σ) : (modify f : Async ι σ κ ρ ε Unit).Submits C :=
  submits_access fun _ _ => submits_ret _

theorem submits_check (f : ι → σ → Except ε Unit) : (check f : Async ι σ κ ρ ε Unit).Submits C :=
  submits_access fun _ _ => submits_ofExcept _

theorem submits_update (f : ι → σ → Except ε σ) : (update f : Async ι σ κ ρ ε Unit).Submits C :=
  submits_access fun _ _ => submits_ofExcept _

theorem submits_run [Inhabited ρ] {j : Job κ ρ ε α} (hj : C j.call) :
    (j.run : Async ι σ κ ρ ε α).Submits C :=
  submits_call (List.forall_mem_singleton.2 hj) fun _ => submits_ofExcept _

/-! ## Segments -/

variable {R : ι → σ → σ → Prop}

theorem Changes.unfolds (hp : p.Changes R) (h : Unfolds p xs q) : q.Changes R := by
  induction h with
  | refl p => exact hp
  | access i s h ih =>
    cases hp with
    | access hf hk => exact ih (hk i s)
  | call rs hlen h ih =>
    cases hp with
    | call _ hk => exact ih (hk rs)

theorem Commits.unfolds (hp : p.Commits R) (h : Unfolds p xs q) : q.Commits R := by
  induction h with
  | refl p => exact hp
  | access i s h ih =>
    cases hp with
    | changes hp => exact .changes (hp.unfolds (.access i s h))
    | access hf hk => exact ih (hk i s)
    | fails hk =>
      obtain ⟨e, he⟩ := hk i s
      exact ih (he ▸ .changes (.fail e))
  | call rs hlen h ih =>
    cases hp with
    | changes hp => exact .changes (hp.unfolds (.call rs hlen h))
    | call _ hk => exact ih (hk rs)

theorem unfolds_segment_done {i : ι} {p : Async ι σ κ ρ ε α} {s : σ} {a : α}
    (h : (p.segment i s).2 = .done a) : Unfolds p [] (ret a) := by
  induction p generalizing s with
  | ret a =>
    cases h
    exact .refl _
  | fail e => cases h
  | access f k ih => exact .access i s (ih i s h)
  | call cs k ih => cases h

theorem unfolds_segment_failed {i : ι} {p : Async ι σ κ ρ ε α} {s : σ} {e : ε}
    (h : (p.segment i s).2 = .failed e) : Unfolds p [] (fail e) := by
  induction p generalizing s with
  | ret a => cases h
  | fail e =>
    cases h
    exact .refl _
  | access f k ih => exact .access i s (ih i s h)
  | call cs k ih => cases h

/-- The segment of an update that succeeds. -/
theorem segment_update {f : ι → σ → Except ε σ} {i : ι} {s s' : σ} (h : f i s = .ok s') :
    (update f : Async ι σ κ ρ ε Unit).segment i s = (s', .done ()) := by
  unfold update
  simp only [segment, h]
  rfl

/-- A check that succeeds is passed. -/
theorem segment_check_bind_ok {f : ι → σ → Except ε Unit} {g : Unit → Async ι σ κ ρ ε α} {i : ι}
    {s : σ} {u : Unit} (h : f i s = .ok u) :
    ((check f).bind g).segment i s = (g u).segment i s := by
  show ((ofExcept (f i s)).bind g).segment i s = _
  rw [h]
  rfl

/-- A check that fails ends the segment. -/
theorem segment_check_bind_error {f : ι → σ → Except ε Unit} {g : Unit → Async ι σ κ ρ ε α} {i : ι}
    {s : σ} {e : ε} (h : f i s = .error e) : ((check f).bind g).segment i s = (s, .failed e) := by
  show ((ofExcept (f i s)).bind g).segment i s = _
  rw [h]
  rfl

/-- The calls that end a segment are submitted. -/
theorem unfolds_segment {i : ι} {p : Async ι σ κ ρ ε α} {s : σ}
    (h : (p.segment i s).2 = .calls cs k) : Unfolds p [] (.call cs k) := by
  induction p generalizing s with
  | ret a => cases h
  | fail e => cases h
  | access f k' ih => exact .access i s (ih i s h)
  | call cs' k' ih =>
    cases h
    exact .refl _

/-- How the handler stands at the end of its present segment, after turns. -/
def replay : List (Turn ι σ ρ) → Async ι σ κ ρ ε α → ι → σ → Await ι σ κ ρ ε α
  | [], p, i, s => (p.segment i s).2
  | t :: ts, p, i, s => match (p.segment t.env t.state).2 with
    | .calls _ k => replay ts (k t.replies) i s
    | e => e

/-- One more turn of a handler that awaits replies. -/
theorem replay_snoc (t : Turn ι σ ρ) (ts : List (Turn ι σ ρ)) (i : ι) (s : σ) :
    ∀ {p : Async ι σ κ ρ ε α}, replay ts p t.env t.state = .calls cs k →
      replay (ts ++ [t]) p i s = ((k t.replies).segment i s).2 := by
  induction ts with
  | nil =>
    intro p h
    have h' : (p.segment t.env t.state).2 = .calls cs k := h
    simp [replay, h']
  | cons u ts ih =>
    intro p h
    rw [replay] at h
    rw [List.cons_append, replay]
    cases hu : (p.segment u.env u.state).2 with
    | done a =>
      rw [hu] at h
      cases h
    | failed e =>
      rw [hu] at h
      cases h
    | calls cs' k' =>
      rw [hu] at h
      exact ih h

/-- The calls that a handler awaits at the end of a turn are those it has submitted last. -/
theorem batches_snoc (t : Turn ι σ ρ) (ts : List (Turn ι σ ρ)) :
    ∀ {p : Async ι σ κ ρ ε α}, replay ts p t.env t.state = .calls cs k →
      batches (ts ++ [t]) p = batches ts p ++ [cs] := by
  induction ts with
  | nil =>
    intro p h
    have h' : (p.segment t.env t.state).2 = .calls cs k := h
    simp [batches, h']
  | cons u ts ih =>
    intro p h
    rw [replay] at h
    rw [List.cons_append, batches, batches]
    cases hu : (p.segment u.env u.state).2 with
    | done a =>
      rw [hu] at h
      cases h
    | failed e =>
      rw [hu] at h
      cases h
    | calls cs' k' =>
      rw [hu] at h
      exact congrArg (cs' :: ·) (ih h)

end Async
