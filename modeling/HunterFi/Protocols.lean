import HunterFi.Runs
import HunterFi.Async

/-!
# Handlers that keep to a protocol

A `Peer` is everything that a handler meets : the environment and the state of its segments and
the answers to its calls, each as a function of what has been said before. `talkTo` is a whole
conversation of a handler with a peer.

A protocol is a partial step function : in a state of the protocol it says which calls may be
made, and to which state of it a reply leads. `Keeps I step Q R s p` : from the protocol's state
`s` the handler `p` makes only calls that the protocol allows, whatever comes back, and leaves
the protocol in a state with `Q` when it returns, and with `R` when it fails. The state of the
server has `I` whenever the handler looks at it, and keeps it. The rules below take a handler apart
into its parts, as those of a program logic do. `Keeps.talkTo` is what they are for : every
conversation of the handler is a run of the protocol. `Keeps.segment` is the same for a handler
whose segments interleave with others.

`embed` reads a handler of one interface as a handler of a larger one. `AtMost n` says that a
handler awaits replies at most `n` times.
-/

namespace Async

variable {ι σ κ κ' ρ ρ' ε ε' α β S : Type}

/-! ## Conversations -/

/-- What a handler meets, by what has been said before. -/
structure Peer (ι σ κ ρ : Type) : Type where
  env : List (κ × ρ) → ι
  state : List (κ × ρ) → σ
  answer : List (κ × ρ) → κ → ρ

/-- What is said in a conversation that starts after `log`, and how it ends. -/
def talkTo (peer : Peer ι σ κ ρ) : List (κ × ρ) → Async ι σ κ ρ ε α →
    List (κ × ρ) × Except ε α
  | _, ret a => ([], .ok a)
  | _, fail e => ([], .error e)
  | log, access _ k => talkTo peer log (k (peer.env log) (peer.state log))
  | log, call cs k =>
    let rs := cs.map (peer.answer log)
    let (ys, result) := talkTo peer (log ++ cs.zip rs) (k rs)
    (cs.zip rs ++ ys, result)

variable (peer : Peer ι σ κ ρ)

/-- The conversation of a composition is that of its first part and then that of its second. -/
theorem talkTo_bind (p : Async ι σ κ ρ ε α) (q : α → Async ι σ κ ρ ε β) (log : List (κ × ρ)) :
    talkTo peer log (p.bind q) = match talkTo peer log p with
      | (xs, .ok a) => (xs ++ (talkTo peer (log ++ xs) (q a)).1,
          (talkTo peer (log ++ xs) (q a)).2)
      | (xs, .error e) => (xs, .error e) := by
  induction p generalizing log with
  | ret a => simp [bind, talkTo]
  | fail e => rfl
  | access f k ih => exact ih _ _ log
  | call cs k ih =>
    simp only [bind, talkTo, ih]
    rcases talkTo peer _ (k _) with ⟨xs, e | a⟩
    · rfl
    · simp only [List.append_assoc]

/-- An attempt says what the handler says. -/
theorem talkTo_attempt (p : Async ι σ κ ρ ε α) (log : List (κ × ρ)) :
    talkTo peer log (p.attempt : Async ι σ κ ρ ε' (Except ε α)) =
      ((talkTo peer log p).1, .ok (talkTo peer log p).2) := by
  induction p generalizing log with
  | ret a => rfl
  | fail e => rfl
  | access f k ih => exact ih _ _ log
  | call cs k ih => simp only [attempt, talkTo, ih]

/-- Every reply in a conversation is what the peer answers. -/
theorem answered_talkTo (p : Async ι σ κ ρ ε α) (log : List (κ × ρ)) :
    ∀ x ∈ (talkTo peer log p).1, ∃ log', x.2 = peer.answer log' x.1 := by
  induction p generalizing log with
  | ret a => exact fun x hx => nomatch hx
  | fail e => exact fun x hx => nomatch hx
  | access f k ih => exact ih _ _ log
  | call cs k ih =>
    intro x hx
    rcases List.mem_append.1 hx with hx | hx
    · rw [← List.map_prod_left_eq_zip] at hx
      obtain ⟨c, -, rfl⟩ := List.mem_map.1 hx
      exact ⟨log, rfl⟩
    · exact ih _ _ x hx

/-! ## Protocols -/

/-- From the state `s` of the protocol the handler makes only calls that the protocol allows, and
ends as `Q` or `R` say. Its changes of the state of its server keep `I`. -/
def Keeps (I : σ → Prop) (step : S → κ × ρ → Option S) (Q : α → S → Prop) (R : ε → S → Prop) :
    S → Async ι σ κ ρ ε α → Prop
  | s, ret a => Q a s
  | s, fail e => R e s
  | s, access f k => ∀ i t, I t → I (f i t) ∧ Keeps I step Q R s (k i t)
  | s, call cs k => ∀ rs, rs.length = cs.length →
    ∃ s', Runs.run step s (cs.zip rs) = some s' ∧ Keeps I step Q R s' (k rs)

variable {I : σ → Prop} {step : S → κ × ρ → Option S} {Q Q' : α → S → Prop} {R R' : ε → S → Prop}
  {s : S} {p q : Async ι σ κ ρ ε α}

/-- What is said is a run of the protocol, and it ends as the conversation does. -/
theorem Keeps.talkTo (peer : Peer ι σ κ ρ) (hpeer : ∀ log, I (peer.state log))
    (log : List (κ × ρ)) (h : Keeps I step Q R s p) :
    ∃ s', Runs.run step s (p.talkTo peer log).1 = some s' ∧
      (∀ a, (p.talkTo peer log).2 = .ok a → Q a s') ∧
      ∀ e, (p.talkTo peer log).2 = .error e → R e s' := by
  induction p generalizing s log with
  | ret a =>
    exact ⟨s, rfl, fun b hb => (Except.ok.inj hb : a = b) ▸ h, fun _ he => nomatch he⟩
  | fail e =>
    exact ⟨s, rfl, fun _ ha => (nomatch ha), fun e' he => (Except.error.inj he : e = e') ▸ h⟩
  | access f k ih => exact ih _ _ log (h _ _ (hpeer log)).2
  | call cs k ih =>
    obtain ⟨t, ht, hrest⟩ := h (cs.map (peer.answer log)) (List.length_map _)
    obtain ⟨u, hu, hend⟩ := ih _ (log ++ cs.zip (cs.map (peer.answer log))) hrest
    refine ⟨u, ?_, hend⟩
    show Runs.run step s (_ ++ _) = some u
    rw [Runs.run_append, ht]
    exact hu

/-- A segment keeps `I`, and what follows it keeps to the protocol. -/
theorem Keeps.segment (h : Keeps I step Q R s p) (i : ι) {t : σ} (ht : I t) :
    I (p.segment i t).1 ∧ ∀ cs k, (p.segment i t).2 = .calls cs k →
      Keeps I step Q R s (call cs k) := by
  induction p generalizing t with
  | ret a => exact ⟨ht, fun _ _ hc => nomatch hc⟩
  | fail e => exact ⟨ht, fun _ _ hc => nomatch hc⟩
  | access f k ih =>
    obtain ⟨hI, hk⟩ := h i t ht
    exact ih i t hk hI
  | call cs k ih =>
    refine ⟨ht, fun cs' k' hc => ?_⟩
    cases hc
    exact h

/-! ## Rules -/

/-- The rule of consequence. -/
theorem Keeps.mono (hQ : ∀ a t, Q a t → Q' a t) (hR : ∀ e t, R e t → R' e t)
    (h : Keeps I step Q R s p) : Keeps I step Q' R' s p := by
  induction p generalizing s with
  | ret a => exact hQ a s h
  | fail e => exact hR e s h
  | access f k ih => exact fun i t ht => (h i t ht).imp_right (ih i t)
  | call cs k ih =>
    intro rs hlen
    obtain ⟨t, ht, hrest⟩ := h rs hlen
    exact ⟨t, ht, ih rs hrest⟩

/-- A composition : its second part starts where its first part has left the protocol. -/
theorem Keeps.bind {q : α → Async ι σ κ ρ ε β} {Q : β → S → Prop}
    (h : Keeps I step (fun a t => Keeps I step Q R t (q a)) R s p) :
    Keeps I step Q R s (p.bind q) := by
  induction p generalizing s with
  | ret a => exact h
  | fail e => exact h
  | access f k ih => exact fun i t ht => (h i t ht).imp_right (ih i t)
  | call cs k ih =>
    intro rs hlen
    obtain ⟨t, ht, hrest⟩ := h rs hlen
    exact ⟨t, ht, ih rs hrest⟩

/-- An attempt returns how the handler ends. -/
theorem Keeps.attempt {Q : Except ε α → S → Prop} {R : ε' → S → Prop}
    (h : Keeps I step (fun a t => Q (.ok a) t) (fun e t => Q (.error e) t) s p) :
    Keeps I step Q R s (p.attempt : Async ι σ κ ρ ε' (Except ε α)) := by
  induction p generalizing s with
  | ret a => exact h
  | fail e => exact h
  | access f k ih => exact fun i t ht => (h i t ht).imp_right (ih i t)
  | call cs k ih =>
    intro rs hlen
    obtain ⟨t, ht, hrest⟩ := h rs hlen
    exact ⟨t, ht, ih rs hrest⟩

theorem Keeps.mapError {g : ε → ε'} {R : ε' → S → Prop}
    (h : Keeps I step Q (fun e t => R (g e) t) s p) :
    Keeps I step Q R s (p.mapError g : Async ι σ κ ρ ε' α) :=
  Keeps.bind (Keeps.attempt h)

/-- The environment may be any. -/
theorem keeps_env {Q : ι → S → Prop} (h : ∀ i, Q i s) :
    Keeps I step Q R s (env : Async ι σ κ ρ ε ι) :=
  fun i _ ht => ⟨ht, h i⟩

/-- Of the state that is read the invariant is known. -/
theorem keeps_get {Q : σ → S → Prop} (h : ∀ t, I t → Q t s) :
    Keeps I step Q R s (get : Async ι σ κ ρ ε σ) :=
  fun _ t ht => ⟨ht, h t ht⟩

/-- A change has to keep the invariant. -/
theorem keeps_modify {f : ι → σ → σ} {Q : Unit → S → Prop} (hf : ∀ i t, I t → I (f i t))
    (h : Q () s) : Keeps I step Q R s (modify f : Async ι σ κ ρ ε Unit) :=
  fun i t ht => ⟨hf i t ht, h⟩

/-- A result that is there already ends as it is. -/
theorem keeps_ofExcept {x : Except ε α} (hQ : ∀ a, x = .ok a → Q a s)
    (hR : ∀ e, x = .error e → R e s) : Keeps I step Q R s (ofExcept x : Async ι σ κ ρ ε α) := by
  cases x with
  | ok a => exact hQ a rfl
  | error e => exact hR e rfl

theorem keeps_check {f : ι → σ → Except ε Unit} {Q : Unit → S → Prop} (hQ : Q () s)
    (hR : ∀ e, R e s) : Keeps I step Q R s (check f : Async ι σ κ ρ ε Unit) :=
  fun _ _ ht => ⟨ht, keeps_ofExcept (fun _ _ => hQ) fun e _ => hR e⟩

/-- An update has to keep the invariant if it succeeds. -/
theorem keeps_update {f : ι → σ → Except ε σ} {Q : Unit → S → Prop}
    (hf : ∀ i t t', I t → f i t = .ok t' → I t') (hQ : Q () s) (hR : ∀ e, R e s) :
    Keeps I step Q R s (update f : Async ι σ κ ρ ε Unit) := by
  refine fun i t ht => ⟨?_, keeps_ofExcept (fun _ _ => hQ) fun e _ => hR e⟩
  dsimp only
  cases h : f i t with
  | ok t' => exact hf i t t' ht h
  | error e => exact ht

/-- A job : its call is allowed, and its outcome goes with the state that the reply leads to. -/
theorem keeps_run [Inhabited ρ] {j : Job κ ρ ε α}
    (h : ∀ r, ∃ t, step s (j.call, r) = some t ∧ (∀ a, j.outcome r = .ok a → Q a t) ∧
      ∀ e, j.outcome r = .error e → R e t) :
    Keeps I step Q R s (j.run : Async ι σ κ ρ ε α) := by
  intro rs hlen
  obtain ⟨r, rfl⟩ := List.length_eq_one_iff.1 hlen
  obtain ⟨t, ht, hQ, hR⟩ := h r
  refine ⟨t, ?_, keeps_ofExcept hQ hR⟩
  simp [Runs.run, ht]

/-- Jobs that leave the protocol where it is. -/
theorem keeps_joinAll {js : List (Job κ ρ ε α)} {Q : List (Except ε α) → S → Prop}
    {R : ε' → S → Prop} (hjs : ∀ j ∈ js, ∀ r, step s (j.call, r) = some s) (h : ∀ xs, Q xs s) :
    Keeps I step Q R s (joinAll js : Async ι σ κ ρ ε' (List (Except ε α))) := by
  refine fun rs _ => ⟨s, Runs.run_eq_self fun x hx => ?_, h _⟩
  obtain ⟨j, hj, hcall⟩ := List.mem_map.1 (List.of_mem_zip hx).1
  exact (congrArg (fun c => step s (c, x.2)) hcall).symm.trans (hjs j hj x.2)

/-! ## Larger interfaces -/

/-- A handler of an interface whose calls, replies and errors are some of those of another. -/
def embed (toCall : κ → κ') (ofReply : ρ' → ρ) (toError : ε → ε') :
    Async ι σ κ ρ ε α → Async ι σ κ' ρ' ε' α
  | ret a => ret a
  | fail e => fail (toError e)
  | access f k => access f fun i s => (k i s).embed toCall ofReply toError
  | call cs k => call (cs.map toCall) fun rs => (k (rs.map ofReply)).embed toCall ofReply toError

/-- An embedded handler keeps to a protocol that the handler keeps to as far as it sees it. -/
theorem Keeps.embed {toCall : κ → κ'} {ofReply : ρ' → ρ} {toError : ε → ε'}
    {step' : S → κ' × ρ' → Option S} {R' : ε' → S → Prop}
    (hstep : ∀ t t' c r, step t (c, ofReply r) = some t' → step' t (toCall c, r) = some t')
    (h : Keeps I step Q (fun e t => R' (toError e) t) s p) :
    Keeps I step' Q R' s (p.embed toCall ofReply toError) := by
  induction p generalizing s with
  | ret a => exact h
  | fail e => exact h
  | access f k ih => exact fun i t ht => (h i t ht).imp_right (ih i t)
  | call cs k ih =>
    intro rs hlen
    rw [List.length_map] at hlen
    obtain ⟨t, ht, hrest⟩ := h (rs.map ofReply) (by rw [List.length_map, hlen])
    refine ⟨t, ?_, ih _ hrest⟩
    rw [List.zip_map_right] at ht
    rw [List.zip_map_left]
    exact Runs.run_map_of_imp (fun t t' x hx => hstep t t' x.1 x.2 hx) _ ht

/-! ## How often a handler awaits -/

/-- The handler awaits replies at most `n` times. -/
inductive AtMost : ℕ → Async ι σ κ ρ ε α → Prop
  | ret (n : ℕ) (a : α) : AtMost n (ret a)
  | fail (n : ℕ) (e : ε) : AtMost n (fail e)
  | access {n : ℕ} (f : ι → σ → σ) {k : ι → σ → Async ι σ κ ρ ε α}
    (hk : ∀ i s, AtMost n (k i s)) : AtMost n (access f k)
  | call {n : ℕ} (cs : List κ) {k : List ρ → Async ι σ κ ρ ε α} (hk : ∀ rs, AtMost n (k rs)) :
    AtMost (n + 1) (call cs k)

section Rounds

variable {m n : ℕ} {p : Async ι σ κ ρ ε α}

theorem AtMost.mono (hp : p.AtMost m) (hle : m ≤ n) : p.AtMost n := by
  induction hp generalizing n with
  | ret m a => exact .ret n a
  | fail m e => exact .fail n e
  | access f hk ih => exact .access f fun i s => ih i s hle
  | call cs hk ih =>
    obtain ⟨n, rfl⟩ := Nat.exists_eq_add_one.2 (Nat.zero_lt_of_lt hle)
    exact .call cs fun rs => ih rs (Nat.le_of_succ_le_succ hle)

/-- The parts of a composition add up. -/
theorem AtMost.bind {q : α → Async ι σ κ ρ ε β} (hp : p.AtMost m) (hq : ∀ a, (q a).AtMost n) :
    (p >>= q).AtMost (m + n) := by
  induction hp with
  | ret m a => exact (hq a).mono (Nat.le_add_left n m)
  | fail m e => exact .fail _ e
  | access f hk ih => exact .access f ih
  | call cs hk ih =>
    rw [Nat.succ_add]
    exact .call cs ih

theorem AtMost.attempt (hp : p.AtMost n) :
    (p.attempt : Async ι σ κ ρ ε' (Except ε α)).AtMost n := by
  induction hp with
  | ret n a => exact .ret n _
  | fail n e => exact .ret n _
  | access f hk ih => exact .access f ih
  | call cs hk ih => exact .call cs ih

theorem atMost_ofExcept (n : ℕ) (r : Except ε α) : (ofExcept r : Async ι σ κ ρ ε α).AtMost n := by
  cases r with
  | ok a => exact .ret n a
  | error e => exact .fail n e

theorem AtMost.mapError (g : ε → ε') (hp : p.AtMost n) : (p.mapError g).AtMost n := by
  refine AtMost.bind (n := 0) hp.attempt fun r => ?_
  cases r with
  | ok a => exact .ret 0 a
  | error e => exact .fail 0 _

/-- A part that awaits nothing. -/
theorem AtMost.then {q : α → Async ι σ κ ρ ε β} (hp : p.AtMost 0) (hq : ∀ a, (q a).AtMost n) :
    (p >>= q).AtMost n := by
  rw [← Nat.zero_add n]
  exact hp.bind hq

/-- A job awaits its reply. -/
theorem atMost_run [Inhabited ρ] (j : Job κ ρ ε α) : (j.run : Async ι σ κ ρ ε α).AtMost 1 :=
  .call _ fun _ => atMost_ofExcept 0 _

/-- Jobs at once await their replies together. -/
theorem atMost_joinAll (js : List (Job κ ρ ε α)) :
    (joinAll js : Async ι σ κ ρ ε' (List (Except ε α))).AtMost 1 :=
  .call _ fun _ => .ret 0 _

theorem atMost_env : (env : Async ι σ κ ρ ε ι).AtMost 0 :=
  .access _ fun _ _ => .ret 0 _

theorem atMost_get : (get : Async ι σ κ ρ ε σ).AtMost 0 :=
  .access _ fun _ _ => .ret 0 _

theorem atMost_modify (f : ι → σ → σ) : (modify f : Async ι σ κ ρ ε Unit).AtMost 0 :=
  .access _ fun _ _ => .ret 0 _

theorem atMost_check (f : ι → σ → Except ε Unit) : (check f : Async ι σ κ ρ ε Unit).AtMost 0 :=
  .access _ fun _ _ => atMost_ofExcept 0 _

theorem atMost_update (f : ι → σ → Except ε σ) : (update f : Async ι σ κ ρ ε Unit).AtMost 0 :=
  .access _ fun _ _ => atMost_ofExcept 0 _

/-- A segment that ends with calls leaves one time less. -/
theorem AtMost.segment {i : ι} (hp : p.AtMost n) (s : σ) {cs : List κ}
    {k : List ρ → Async ι σ κ ρ ε α} (h : (p.segment i s).2 = .calls cs k) :
    ∃ m, n = m + 1 ∧ ∀ rs, (k rs).AtMost m := by
  induction hp generalizing s with
  | ret n a => cases h
  | fail n e => cases h
  | access f hk ih => exact ih i s _ h
  | call cs' hk ih =>
    obtain ⟨rfl, rfl⟩ : cs' = cs ∧ _ = k := by simpa using h
    exact ⟨_, rfl, hk⟩

end Rounds

end Async
