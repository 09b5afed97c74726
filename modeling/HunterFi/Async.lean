/-!
# Handlers that await calls

A handler of a message reads and changes the state of its server and awaits calls to other
servers. Between two awaits it runs in one go, while other handlers run during an await, so
after it the state may be another one. `Async ι σ κ ρ ε α` is a handler over states `σ`,
calls `κ` with replies `ρ`, and an environment `ι` that is fixed while a segment runs. It
ends with an `α` or fails with an `ε`. A batch of calls is submitted at once and awaited
together.

`segment` is what runs up to the next await. `segment_bind` says that the segments of a
composition are those of its parts. `Changes R` says that every change of the state that a
handler ever makes is one that `R` allows ; `Changes.segment` turns this into a fact about
each of its segments.

A `Job` is a handler that makes one call and touches no state. Jobs can be joined : their
calls are submitted together (`joinAll`).
-/

/-- A handler, by its accesses to the state and its calls. -/
inductive Async (ι σ κ ρ ε α : Type) : Type
  | ret (a : α)
  | fail (e : ε)
  | access (f : ι → σ → σ) (k : ι → σ → Async ι σ κ ρ ε α)
  | call (cs : List κ) (k : List ρ → Async ι σ κ ρ ε α)

namespace Async

variable {ι σ κ ρ ε ε' α β : Type}

/-! ## Operations -/

/-- `p`, then `q` on its result. -/
def bind : Async ι σ κ ρ ε α → (α → Async ι σ κ ρ ε β) → Async ι σ κ ρ ε β
  | ret a, q => q a
  | fail e, _ => fail e
  | access f k, q => access f fun i s => (k i s).bind q
  | call cs k, q => call cs fun rs => (k rs).bind q

instance : Monad (Async ι σ κ ρ ε) where
  pure := ret
  bind := bind

/-- The environment of the segment. -/
def env : Async ι σ κ ρ ε ι :=
  access (fun _ s => s) fun i _ => ret i

/-- The state. -/
def get : Async ι σ κ ρ ε σ :=
  access (fun _ s => s) fun _ s => ret s

/-- Changes the state. -/
def modify (f : ι → σ → σ) : Async ι σ κ ρ ε Unit :=
  access f fun _ _ => ret ()

/-- A result that is there already. -/
def ofExcept : Except ε α → Async ι σ κ ρ ε α
  | .ok a => ret a
  | .error e => fail e

/-- Fails as `f` does, and otherwise changes nothing. -/
def check (f : ι → σ → Except ε Unit) : Async ι σ κ ρ ε Unit :=
  access (fun _ s => s) fun i s => ofExcept (f i s)

/-- Changes the state unless `f` fails. -/
def update (f : ι → σ → Except ε σ) : Async ι σ κ ρ ε Unit :=
  access (fun i s => match f i s with
    | .ok s' => s'
    | .error _ => s) fun i s => ofExcept ((f i s).map fun _ => ())

/-- Submits a call and awaits its reply. -/
def await [Inhabited ρ] (c : κ) : Async ι σ κ ρ ε ρ :=
  call [c] fun rs => ret (rs.headD default)

/-- The handler with its failure as a value. -/
def attempt : Async ι σ κ ρ ε α → Async ι σ κ ρ ε' (Except ε α)
  | ret a => ret (.ok a)
  | fail e => ret (.error e)
  | access f k => access f fun i s => (k i s).attempt
  | call cs k => call cs fun rs => (k rs).attempt

/-- The handler with another error. -/
def mapError (g : ε → ε') (p : Async ι σ κ ρ ε α) : Async ι σ κ ρ ε' α :=
  p.attempt.bind fun
    | .ok a => ret a
    | .error e => fail (g e)

/-- A call with what is made of its reply. -/
structure Job (κ ρ ε α : Type) : Type where
  call : κ
  outcome : ρ → Except ε α

/-- A job whose result is worked on. -/
def Job.andThen (j : Job κ ρ ε α) (f : α → Except ε β) : Job κ ρ ε β where
  call := j.call
  outcome := fun r => (j.outcome r).bind f

@[simp] theorem Job.call_andThen (j : Job κ ρ ε α) (f : α → Except ε β) :
    (j.andThen f).call = j.call :=
  rfl

@[simp] theorem Job.outcome_andThen (j : Job κ ρ ε α) (f : α → Except ε β) (r : ρ) :
    (j.andThen f).outcome r = (j.outcome r).bind f :=
  rfl

/-- A job alone. -/
def Job.run [Inhabited ρ] (j : Job κ ρ ε α) : Async ι σ κ ρ ε α :=
  (await j.call).bind fun r => ofExcept (j.outcome r)

/-- The jobs together : all calls are submitted, then all replies awaited. -/
def joinAll (js : List (Job κ ρ ε α)) : Async ι σ κ ρ ε' (List (Except ε α)) :=
  call (js.map Job.call) fun rs => ret (List.zipWith Job.outcome js rs)

/-! ## Segments -/

/-- How a segment ends. -/
inductive Await (ι σ κ ρ ε α : Type) : Type
  | done (a : α)
  | failed (e : ε)
  | calls (cs : List κ) (k : List ρ → Async ι σ κ ρ ε α)

/-- The first segment : the state it leaves and how it ends. -/
def segment (i : ι) : Async ι σ κ ρ ε α → σ → σ × Await ι σ κ ρ ε α
  | ret a, s => (s, .done a)
  | fail e, s => (s, .failed e)
  | access f k, s => (k i s).segment i (f i s)
  | call cs k, s => (s, .calls cs k)

@[simp] theorem pure_eq (a : α) : (pure a : Async ι σ κ ρ ε α) = ret a :=
  rfl

@[simp] theorem bind_eq (p : Async ι σ κ ρ ε α) (q : α → Async ι σ κ ρ ε β) :
    p >>= q = p.bind q :=
  rfl

@[simp] theorem segment_ret (i : ι) (a : α) (s : σ) :
    (ret a : Async ι σ κ ρ ε α).segment i s = (s, .done a) :=
  rfl

@[simp] theorem segment_fail (i : ι) (e : ε) (s : σ) :
    (fail e : Async ι σ κ ρ ε α).segment i s = (s, .failed e) :=
  rfl

@[simp] theorem segment_call (i : ι) (cs : List κ) (k : List ρ → Async ι σ κ ρ ε α) (s : σ) :
    (call cs k).segment i s = (s, .calls cs k) :=
  rfl

/-- How a composition goes on after the first segment of its first part. -/
theorem segment_bind (i : ι) (p : Async ι σ κ ρ ε α) (q : α → Async ι σ κ ρ ε β) (s : σ) :
    (p.bind q).segment i s = match p.segment i s with
      | (s', .done a) => (q a).segment i s'
      | (s', .failed e) => (s', .failed e)
      | (s', .calls cs k) => (s', .calls cs fun rs => (k rs).bind q) := by
  induction p generalizing s with
  | ret a => rfl
  | fail e => rfl
  | access f k ih => exact ih i s (f i s)
  | call cs k ih => rfl

/-! ## Turns -/

/-- Where a segment of a handler runs, with the replies to the calls it ends with. -/
structure Turn (ι σ ρ : Type) : Type where
  env : ι
  state : σ
  replies : List ρ

/-- The calls that a handler submits in its turns, one batch a turn. -/
def batches : List (Turn ι σ ρ) → Async ι σ κ ρ ε α → List (List κ)
  | [], _ => []
  | t :: ts, p => match (p.segment t.env t.state).2 with
    | .calls cs k => cs :: batches ts (k t.replies)
    | _ => []

variable (t : Turn ι σ ρ) (ts : List (Turn ι σ ρ))

@[simp] theorem batches_nil (p : Async ι σ κ ρ ε α) : batches [] p = [] :=
  rfl

@[simp] theorem batches_ret (a : α) : batches ts (ret a : Async ι σ κ ρ ε α) = [] := by
  cases ts <;> rfl

@[simp] theorem batches_fail (e : ε) : batches ts (fail e : Async ι σ κ ρ ε α) = [] := by
  cases ts <;> rfl

@[simp] theorem batches_call (cs : List κ) (k : List ρ → Async ι σ κ ρ ε α) :
    batches (t :: ts) (call cs k) = cs :: batches ts (k t.replies) :=
  rfl

@[simp] theorem batches_env_bind (q : ι → Async ι σ κ ρ ε α) :
    batches (t :: ts) ((env : Async ι σ κ ρ ε ι).bind q) = batches (t :: ts) (q t.env) :=
  rfl

@[simp] theorem batches_get_bind (q : σ → Async ι σ κ ρ ε α) :
    batches (t :: ts) ((get : Async ι σ κ ρ ε σ).bind q) = batches (t :: ts) (q t.state) :=
  rfl

@[simp] theorem batches_modify_bind (f : ι → σ → σ) (q : Unit → Async ι σ κ ρ ε α) :
    batches (t :: ts) ((modify f).bind q) =
      batches ({ t with state := f t.env t.state } :: ts) (q ()) :=
  rfl

@[simp] theorem ret_bind (a : α) (q : α → Async ι σ κ ρ ε β) : (ret a).bind q = q a :=
  rfl

@[simp] theorem fail_bind (e : ε) (q : α → Async ι σ κ ρ ε β) : (fail e).bind q = fail e :=
  rfl

/-- Composition is associative. -/
theorem bind_assoc (p : Async ι σ κ ρ ε α) {γ : Type} (q : α → Async ι σ κ ρ ε β)
    (r : β → Async ι σ κ ρ ε γ) : (p.bind q).bind r = p.bind fun a => (q a).bind r := by
  induction p with
  | ret a => rfl
  | fail e => rfl
  | access f k ih => exact congrArg (access f) (funext fun i => funext (ih i))
  | call cs k ih => exact congrArg (call cs) (funext ih)

/-- The errors of a composition are mapped in its parts. -/
theorem mapError_bind (p : Async ι σ κ ρ ε α) (q : α → Async ι σ κ ρ ε β) (g : ε → ε') :
    (p.bind q).mapError g = (p.mapError g).bind fun a => (q a).mapError g := by
  induction p with
  | ret a => rfl
  | fail e => rfl
  | access f k ih => exact congrArg (access f) (funext fun i => funext (ih i))
  | call cs k ih => exact congrArg (call cs) (funext ih)

@[simp] theorem mapError_get (g : ε → ε') : (get : Async ι σ κ ρ ε σ).mapError g = get :=
  rfl

/-- A job with another error and what follows it. -/
theorem run_mapError_bind [Inhabited ρ] (j : Job κ ρ ε α) (g : ε → ε')
    (q : α → Async ι σ κ ρ ε' β) :
    (j.run.mapError g).bind q = call [j.call] fun rs => match j.outcome (rs.headD default) with
      | .ok a => q a
      | .error e => fail (g e) := by
  refine congrArg (call _) (funext fun rs => ?_)
  show ((ofExcept (j.outcome (rs.headD default))).mapError g).bind q = _
  cases j.outcome (rs.headD default) <;> rfl

/-- The segment of a handler whose failure is caught. -/
theorem segment_attempt (i : ι) (p : Async ι σ κ ρ ε α) (s : σ) :
    (p.attempt : Async ι σ κ ρ ε' (Except ε α)).segment i s = match p.segment i s with
      | (s', .done a) => (s', .done (.ok a))
      | (s', .failed e) => (s', .done (.error e))
      | (s', .calls cs k) => (s', .calls cs fun rs => (k rs).attempt) := by
  induction p generalizing s with
  | ret a => rfl
  | fail e => rfl
  | access f k ih => exact ih i s (f i s)
  | call cs k ih => rfl

/-- What submits nothing does so in its first segment. -/
theorem segment_ne_calls {p : Async ι σ κ ρ ε α} (hp : ∀ ts, batches ts p = []) (i : ι) (s : σ)
    (cs : List κ) (k : List ρ → Async ι σ κ ρ ε α) : (p.segment i s).2 ≠ .calls cs k := by
  intro h
  have hnil := hp [⟨i, s, []⟩]
  simp only [batches, h] at hnil
  cases hnil

/-- What is made of the result of a handler without a call leaves its calls. -/
theorem batches_bind {q : α → Async ι σ κ ρ ε β} (hq : ∀ a ts, batches ts (q a) = [])
    (ts : List (Turn ι σ ρ)) : ∀ p, batches ts (p.bind q) = batches ts p := by
  induction ts with
  | nil => exact fun p => rfl
  | cons t ts ih =>
    intro p
    rw [batches, batches, segment_bind]
    rcases p.segment t.env t.state with ⟨s, a | e | ⟨cs, k⟩⟩
    · dsimp only
      split
      · exact absurd ‹_› (segment_ne_calls (hq a) t.env s _ _)
      · rfl
    · rfl
    · exact congrArg (cs :: ·) (ih (k t.replies))

theorem batches_modify (f : ι → σ → σ) :
    ∀ ts, batches ts (modify f : Async ι σ κ ρ ε Unit) = []
  | [] => rfl
  | _ :: _ => rfl

theorem batches_ofExcept (x : Except ε α) (ts : List (Turn ι σ ρ)) :
    batches ts (ofExcept x : Async ι σ κ ρ ε α) = [] := by
  cases x with
  | ok a => exact batches_ret ts a
  | error e => exact batches_fail ts e

theorem batches_update (f : ι → σ → Except ε σ) :
    ∀ ts, batches ts (update f : Async ι σ κ ρ ε Unit) = []
  | [] => rfl
  | t :: _ => by
    rw [batches, update, segment]
    cases f t.env t.state <;> rfl

/-- An attempt submits what the handler submits. -/
theorem batches_attempt (ts : List (Turn ι σ ρ)) : ∀ p : Async ι σ κ ρ ε α,
    batches ts (p.attempt : Async ι σ κ ρ ε' (Except ε α)) = batches ts p := by
  induction ts with
  | nil => exact fun p => rfl
  | cons t ts ih =>
    intro p
    rw [batches, batches, segment_attempt]
    rcases p.segment t.env t.state with ⟨s, a | e | ⟨cs, k⟩⟩
    · rfl
    · rfl
    · exact congrArg (cs :: ·) (ih (k t.replies))

/-- So does a handler whose errors are mapped. -/
theorem batches_mapError (g : ε → ε') (ts : List (Turn ι σ ρ)) (p : Async ι σ κ ρ ε α) :
    batches ts (p.mapError g) = batches ts p := by
  refine (batches_bind (fun r ts => ?_) ts p.attempt).trans (batches_attempt ts p)
  cases r with
  | ok a => exact batches_ret ts a
  | error e => exact batches_fail ts (g e)

/-! ## What a handler changes -/

/-- Every change of the state by the handler is allowed by `R`. -/
inductive Changes (R : ι → σ → σ → Prop) : Async ι σ κ ρ ε α → Prop
  | ret (a : α) : Changes R (ret a)
  | fail (e : ε) : Changes R (fail e)
  | access {f : ι → σ → σ} {k : ι → σ → Async ι σ κ ρ ε α} (hf : ∀ i s, R i s (f i s))
    (hk : ∀ i s, Changes R (k i s)) : Changes R (access f k)
  | call (cs : List κ) {k : List ρ → Async ι σ κ ρ ε α} (hk : ∀ rs, Changes R (k rs)) :
    Changes R (call cs k)

variable {R : ι → σ → σ → Prop}

/-- A composition changes what its parts do. -/
theorem Changes.bind {p : Async ι σ κ ρ ε α} {q : α → Async ι σ κ ρ ε β} (hp : p.Changes R)
    (hq : ∀ a, (q a).Changes R) : (p >>= q).Changes R := by
  induction hp with
  | ret a => exact hq a
  | fail e => exact .fail e
  | access hf hk ih => exact .access hf ih
  | call cs hk ih => exact .call cs ih

/-- An attempt changes what the handler does. -/
theorem Changes.attempt {p : Async ι σ κ ρ ε α} (hp : p.Changes R) :
    (p.attempt : Async ι σ κ ρ ε' (Except ε α)).Changes R := by
  induction hp with
  | ret a => exact .ret _
  | fail e => exact .ret _
  | access hf hk ih => exact .access hf ih
  | call cs hk ih => exact .call cs ih

theorem Changes.mapError {p : Async ι σ κ ρ ε α} (g : ε → ε') (hp : p.Changes R) :
    (p.mapError g).Changes R := by
  refine Changes.bind hp.attempt fun r => ?_
  cases r with
  | ok a => exact .ret a
  | error e => exact .fail _

theorem changes_pure (a : α) : (pure a : Async ι σ κ ρ ε α).Changes R :=
  .ret a

theorem changes_ofExcept (r : Except ε α) : (ofExcept r : Async ι σ κ ρ ε α).Changes R := by
  cases r with
  | ok a => exact .ret a
  | error e => exact .fail e

theorem changes_await [Inhabited ρ] (c : κ) : (await c : Async ι σ κ ρ ε ρ).Changes R :=
  .call _ fun _ => .ret _

/-- A job changes nothing. -/
theorem changes_run [Inhabited ρ] (j : Job κ ρ ε α) : (j.run : Async ι σ κ ρ ε α).Changes R :=
  Changes.bind (changes_await _) fun _ => changes_ofExcept _

theorem changes_joinAll (js : List (Job κ ρ ε α)) :
    (joinAll js : Async ι σ κ ρ ε' (List (Except ε α))).Changes R :=
  .call _ fun _ => .ret _

/-- What reads the state changes it in a way that a reflexive `R` allows. -/
theorem changes_env (hR : ∀ i s, R i s s) : (env : Async ι σ κ ρ ε ι).Changes R :=
  .access hR fun _ _ => .ret _

theorem changes_get (hR : ∀ i s, R i s s) : (get : Async ι σ κ ρ ε σ).Changes R :=
  .access hR fun _ _ => .ret _

theorem changes_check (hR : ∀ i s, R i s s) (f : ι → σ → Except ε Unit) :
    (check f : Async ι σ κ ρ ε Unit).Changes R :=
  .access hR fun _ _ => changes_ofExcept _

/-- A change has to be allowed. -/
theorem changes_modify {f : ι → σ → σ} (hf : ∀ i s, R i s (f i s)) :
    (modify f : Async ι σ κ ρ ε Unit).Changes R :=
  .access hf fun _ _ => .ret _

/-- An update has to be allowed if it succeeds. -/
theorem changes_update (hR : ∀ i s, R i s s) {f : ι → σ → Except ε σ}
    (hf : ∀ i s s', f i s = .ok s' → R i s s') : (update f : Async ι σ κ ρ ε Unit).Changes R := by
  refine .access (fun i s => ?_) fun _ _ => changes_ofExcept _
  cases h : f i s with
  | ok s' => exact hf i s s' h
  | error e => exact hR i s

/-- A segment of such a handler makes an allowed change, and so do the segments to come. -/
theorem Changes.segment {i : ι} (hrefl : ∀ s, R i s s)
    (htrans : ∀ s t u, R i s t → R i t u → R i s u) {p : Async ι σ κ ρ ε α} (hp : p.Changes R)
    (s : σ) : R i s (p.segment i s).1 ∧
      ∀ cs k, (p.segment i s).2 = .calls cs k → ∀ rs, (k rs).Changes R := by
  induction hp generalizing s with
  | ret a => exact ⟨hrefl s, fun cs k h => by simp at h⟩
  | fail e => exact ⟨hrefl s, fun cs k h => by simp at h⟩
  | access hf hk ih =>
    obtain ⟨hr, hk⟩ := ih i s _
    exact ⟨htrans _ _ _ (hf i s) hr, hk⟩
  | call cs hk ih =>
    refine ⟨hrefl s, fun cs' k' h rs => ?_⟩
    obtain ⟨rfl, rfl⟩ : cs = cs' ∧ _ = k' := by simpa using h
    exact hk rs

/-- Every change of the state by the handler is allowed by `R`, but for one right before it
fails. -/
inductive Commits (R : ι → σ → σ → Prop) : Async ι σ κ ρ ε α → Prop
  | changes {p : Async ι σ κ ρ ε α} (hp : p.Changes R) : Commits R p
  | access {f : ι → σ → σ} {k : ι → σ → Async ι σ κ ρ ε α} (hf : ∀ i s, R i s (f i s))
    (hk : ∀ i s, Commits R (k i s)) : Commits R (access f k)
  | call (cs : List κ) {k : List ρ → Async ι σ κ ρ ε α} (hk : ∀ rs, Commits R (k rs)) :
    Commits R (call cs k)
  | fails {f : ι → σ → σ} {k : ι → σ → Async ι σ κ ρ ε α} (hk : ∀ i s, ∃ e, k i s = fail e) :
    Commits R (access f k)

/-- A composition with a first part that makes allowed changes only. -/
theorem Commits.bind {p : Async ι σ κ ρ ε α} {q : α → Async ι σ κ ρ ε β} (hp : p.Changes R)
    (hq : ∀ a, (q a).Commits R) : (p >>= q).Commits R := by
  induction hp with
  | ret a => exact hq a
  | fail e => exact .changes (.fail e)
  | access hf hk ih => exact .access hf ih
  | call cs hk ih => exact .call cs ih

/-- A segment of such a handler fails or makes an allowed change. -/
theorem Commits.segment {i : ι} (hrefl : ∀ s, R i s s)
    (htrans : ∀ s t u, R i s t → R i t u → R i s u) {p : Async ι σ κ ρ ε α} (hp : p.Commits R)
    (s : σ) : (∃ e, (p.segment i s).2 = .failed e) ∨ R i s (p.segment i s).1 := by
  induction hp generalizing s with
  | changes hp => exact Or.inr (hp.segment hrefl htrans s).1
  | access hf hk ih => exact (ih i s _).imp_right (htrans _ _ _ (hf i s))
  | call cs hk ih => exact Or.inr (hrefl s)
  | @fails f k hk =>
    obtain ⟨e, he⟩ := hk i s
    refine Or.inl ⟨e, ?_⟩
    simp only [Async.segment, he]

end Async
