import Mathlib.Tactic

/-! # Programs that can be killed between two durable steps

A program over a durable state `σ` (a file tree, a database) is a tree of reads and *acts*. An
act is one atomic change of the state, a file replaced or a transaction committed. Reads are not
recorded by anybody, so the points at which a kill makes a difference are the acts: `exec p n s`
performs `n` acts of `p` and kills it in front of the next one.

A killed program leaves the state of that moment and nothing else. What a later program finds is
therefore described by one predicate on states, the *kill condition* `K` of `wp`:

    wp p Q E K s    every kill of `p`, started in `s`, leaves a state in `K`; a normal return
                    satisfies `Q` and an exception `E`

`wp` is defined by recursion on the program and has one rule per way of composing programs
(`wp_bind`, `wp_attempt`, `wp_mapError`). `wp_exec` turns it into a statement about every kill
point.
-/

namespace Durable

/-- A program over the durable state `σ`, raising exceptions `ε` and returning an `α`. -/
inductive Prog (σ ε α : Type) : Type where
  | ret (a : α)
  | raise (e : ε)
  | read (next : σ → Prog σ ε α)
  | act (f : σ → σ) (next : Prog σ ε α)

/-- How an execution ends. A killed program leaves a state and no value. -/
inductive Outcome (σ ε α : Type) : Type where
  | done (a : α) (s : σ)
  | raised (e : ε) (s : σ)
  | killed (s : σ)

/-- The state an execution leaves behind. -/
def Outcome.state {σ ε α : Type} : Outcome σ ε α → σ
  | .done _ s => s
  | .raised _ s => s
  | .killed s => s

namespace Prog

variable {σ ε ε' α β : Type}

/-! ## Composing programs -/

def bind : Prog σ ε α → (α → Prog σ ε β) → Prog σ ε β
  | ret a, k => k a
  | raise e, _ => raise e
  | read next, k => read (fun s => bind (next s) k)
  | act f next, k => act f (bind next k)

instance : Monad (Prog σ ε) where
  pure := ret
  bind := bind

/-- The current state. -/
def get : Prog σ ε σ := read ret

/-- One atomic step. -/
def step (f : σ → σ) : Prog σ ε Unit := act f (ret ())

/-- Run `p` and hand its exception to the continuation instead of raising it: the `try` block. -/
def attempt : Prog σ ε α → Prog σ ε' (Except ε α)
  | ret a => ret (.ok a)
  | raise e => ret (.error e)
  | read next => read (fun s => attempt (next s))
  | act f next => act f (attempt next)

def mapError (g : ε → ε') : Prog σ ε α → Prog σ ε' α
  | ret a => ret a
  | raise e => raise (g e)
  | read next => read (fun s => mapError g (next s))
  | act f next => act f (mapError g next)

end Prog

/-- A part of the state that can be read and replaced. -/
structure Part (σ τ : Type) where
  view : σ → τ
  put : τ → σ → σ
  view_put : ∀ t s, view (put t s) = t
  put_put : ∀ t t' s, put t' (put t s) = put t' s
  put_view : ∀ s, put (view s) s = s

namespace Prog

variable {σ τ ε ε' α β : Type}

/-- Run a program on a part of the state. -/
def focus (part : Part σ τ) : Prog τ ε α → Prog σ ε α
  | ret a => ret a
  | raise e => raise e
  | read next => read (fun s => focus part (next (part.view s)))
  | act f next => act (fun s => part.put (f (part.view s)) s) (focus part next)

/-! ## Executing programs -/

/-- Run `p` from `s` and kill it in front of act number `n` (counted from `0`). A program with
at most `n` acts ends by itself. -/
def exec : Prog σ ε α → Nat → σ → Outcome σ ε α
  | ret a, _, s => .done a s
  | raise e, _, s => .raised e s
  | read next, n, s => exec (next s) n s
  | act _ _, 0, s => .killed s
  | act f next, n + 1, s => exec next n (f s)

/-- The uninterrupted run. -/
def run : Prog σ ε α → σ → Except ε α × σ
  | ret a, s => (.ok a, s)
  | raise e, s => (.error e, s)
  | read next, s => run (next s) s
  | act f next, s => run next (f s)

/-! ## The crash logic -/

/-- `wp p Q E K s`: from `s`, a return of `p` satisfies `Q`, an exception `E`, and every state
in which `p` is about to act, and can be killed, satisfies `K`. -/
def wp : Prog σ ε α → (α → σ → Prop) → (ε → σ → Prop) → (σ → Prop) → σ → Prop
  | ret a, Q, _, _, s => Q a s
  | raise e, _, E, _, s => E e s
  | read next, Q, E, K, s => wp (next s) Q E K s
  | act f next, Q, E, K, s => K s ∧ wp next Q E K (f s)

variable {Q Q' : α → σ → Prop} {E E' : ε → σ → Prop} {K K' : σ → Prop} {s : σ}

@[simp] theorem wp_ret (a : α) : wp (ret a : Prog σ ε α) Q E K s = Q a s := rfl

@[simp] theorem wp_pure (a : α) : wp (pure a : Prog σ ε α) Q E K s = Q a s := rfl

@[simp] theorem wp_raise (e : ε) : wp (raise e : Prog σ ε α) Q E K s = E e s := rfl

@[simp] theorem wp_read (next : σ → Prog σ ε α) : wp (read next) Q E K s = wp (next s) Q E K s :=
  rfl

@[simp] theorem wp_get (Q : σ → σ → Prop) : wp (get : Prog σ ε σ) Q E K s = Q s s := rfl

@[simp] theorem wp_step (f : σ → σ) (Q : Unit → σ → Prop) :
    wp (step f : Prog σ ε Unit) Q E K s = (K s ∧ Q () (f s)) := rfl

@[simp] theorem wp_bind (p : Prog σ ε α) (k : α → Prog σ ε β) (Q : β → σ → Prop) (s : σ) :
    wp (p >>= k) Q E K s = wp p (fun a s' => wp (k a) Q E K s') E K s := by
  induction p generalizing s with
  | ret a => rfl
  | raise e => rfl
  | read next ih => exact ih s s
  | act f next ih => exact congrArg (K s ∧ ·) (ih (f s))

@[simp] theorem wp_attempt (p : Prog σ ε α) (Q : Except ε α → σ → Prop) (E : ε' → σ → Prop)
    (s : σ) :
    wp (attempt p : Prog σ ε' _) Q E K s
      = wp p (fun a => Q (.ok a)) (fun e => Q (.error e)) K s := by
  induction p generalizing s with
  | ret a => rfl
  | raise e => rfl
  | read next ih => exact ih s s
  | act f next ih => exact congrArg (K s ∧ ·) (ih (f s))

@[simp] theorem wp_mapError (g : ε → ε') (p : Prog σ ε α) (E : ε' → σ → Prop) (s : σ) :
    wp (mapError g p) Q E K s = wp p Q (fun e => E (g e)) K s := by
  induction p generalizing s with
  | ret a => rfl
  | raise e => rfl
  | read next ih => exact ih s s
  | act f next ih => exact congrArg (K s ∧ ·) (ih (f s))

theorem wp_focus_put (part : Part σ τ) (p : Prog τ ε α) (t : τ) (s : σ) :
    wp (focus part p) Q E K (part.put t s)
      = wp p (fun a t' => Q a (part.put t' s)) (fun e t' => E e (part.put t' s))
        (fun t' => K (part.put t' s)) t := by
  induction p generalizing t with
  | ret a => rfl
  | raise e => rfl
  | read next ih =>
    show wp (focus part (next (part.view (part.put t s)))) Q E K (part.put t s) = _
    rw [part.view_put]
    exact ih t t
  | act f next ih =>
    show (K (part.put t s) ∧ wp (focus part next) Q E K
      (part.put (f (part.view (part.put t s))) (part.put t s))) = _
    rw [part.view_put, part.put_put, ih]
    rfl

theorem wp_focus (part : Part σ τ) (p : Prog τ ε α) : wp (focus part p) Q E K s
      = wp p (fun a t => Q a (part.put t s)) (fun e t => E e (part.put t s))
        (fun t => K (part.put t s)) (part.view s) := by
  have h := wp_focus_put (Q := Q) (E := E) (K := K) part p (part.view s) s
  rwa [part.put_view] at h

theorem wp_ite (c : Prop) [Decidable c] (p q : Prog σ ε α) :
    wp (if c then p else q) Q E K s = if c then wp p Q E K s else wp q Q E K s := by
  split <;> rfl

variable {p : Prog σ ε α}

theorem wp_mono (hQ : ∀ a s, Q a s → Q' a s) (hE : ∀ e s, E e s → E' e s)
    (hK : ∀ s, K s → K' s) (h : wp p Q E K s) : wp p Q' E' K' s := by
  induction p generalizing s with
  | ret a => exact hQ _ _ h
  | raise e => exact hE _ _ h
  | read next ih => exact ih s h
  | act f next ih => exact ⟨hK _ h.1, ih h.2⟩

theorem wp_imp (hQ : ∀ a s, Q a s → Q' a s) (h : wp p Q E K s) : wp p Q' E K s :=
  wp_mono hQ (fun _ _ h => h) (fun _ h => h) h

theorem wp_safe (hQ : ∀ a s, Q a s → Q' a s) (h : wp p Q (fun _ _ => False) K s) :
    wp p Q' E K s := wp_mono hQ (fun _ _ h => h.elim) (fun _ h => h) h

theorem wp_returned (hQ : ∀ a s, Q a s → Q' a s) (h : wp p Q E K s) :
    wp p Q' (fun _ _ => True) (fun _ => True) s :=
  wp_mono hQ (fun _ _ _ => trivial) (fun _ _ => trivial) h

theorem wp_and (h : wp p Q E K s) (h' : wp p Q' E' K' s) :
    wp p (fun a s => Q a s ∧ Q' a s) (fun e s => E e s ∧ E' e s) (fun s => K s ∧ K' s) s := by
  induction p generalizing s with
  | ret a => exact ⟨h, h'⟩
  | raise e => exact ⟨h, h'⟩
  | read next ih => exact ih s h h'
  | act f next ih => exact ⟨⟨h.1, h'.1⟩, ih h.2 h'.2⟩

theorem wp_trivial (p : Prog σ ε α) (s : σ) :
    wp p (fun _ _ => True) (fun _ _ => True) (fun _ => True) s := by
  induction p generalizing s with
  | ret a => trivial
  | raise e => trivial
  | read next ih => exact ih s s
  | act f next ih => exact ⟨trivial, ih (f s)⟩

/-! ## Loops and handlers -/

theorem wp_forM_aux {A : Type} {body : A → Prog σ ε Unit} {E : ε → σ → Prop} {K : σ → Prop}
    {I : List A → σ → Prop} {xs : List A}
    (hstep : ∀ done x rest s, xs = done ++ x :: rest → I done s →
      wp (body x) (fun _ s' => I (done ++ [x]) s') E K s)
    (done rest : List A) (hxs : xs = done ++ rest) {s : σ} (h : I done s) :
    wp (rest.forM body) (fun _ s' => I xs s') E K s := by
  induction rest generalizing done s with
  | nil =>
    rw [List.append_nil] at hxs
    rw [hxs]
    exact h
  | cons x rest ih =>
    show wp (body x >>= fun _ => rest.forM body) _ E K s
    rw [wp_bind]
    refine wp_imp (fun _ s' hs' => ?_) (hstep done x rest s hxs h)
    exact ih (done ++ [x]) (by rw [hxs, List.append_assoc, List.singleton_append]) hs'

/-- **A loop** keeps an invariant of the elements it has been through. -/
theorem wp_forM {A : Type} {body : A → Prog σ ε Unit} {E : ε → σ → Prop} {K : σ → Prop}
    (I : List A → σ → Prop) {xs : List A}
    (hstep : ∀ done x rest s, xs = done ++ x :: rest → I done s →
      wp (body x) (fun _ s' => I (done ++ [x]) s') E K s) {s : σ} (h : I [] s) :
    wp (xs.forM body) (fun _ s' => I xs s') E K s :=
  wp_forM_aux hstep [] xs rfl h

/-- `try … except BaseException: handler; raise`. -/
def onRaise (p : Prog σ ε α) (handler : Prog σ ε Unit) : Prog σ ε α := do
  match ← attempt p with
  | .ok a => ret a
  | .error e => do
    handler
    raise e

/-- `try … finally: last`. -/
def ensure (p : Prog σ ε α) (last : Prog σ ε Unit) : Prog σ ε α := do
  match ← attempt p with
  | .ok a => do
    last
    ret a
  | .error e => do
    last
    raise e

@[simp] theorem wp_onRaise (p : Prog σ ε α) (handler : Prog σ ε Unit) (Q : α → σ → Prop)
    (E : ε → σ → Prop) (K : σ → Prop) (s : σ) :
    wp (onRaise p handler) Q E K s = wp p Q (fun e => wp handler (fun _ => E e) E K) K s := by
  unfold onRaise
  rw [wp_bind, wp_attempt]
  congr 1
  funext e s'
  exact wp_bind handler _ Q s'

@[simp] theorem wp_ensure (p : Prog σ ε α) (last : Prog σ ε Unit) (Q : α → σ → Prop)
    (E : ε → σ → Prop) (K : σ → Prop) (s : σ) :
    wp (ensure p last) Q E K s
      = wp p (fun a => wp last (fun _ => Q a) E K) (fun e => wp last (fun _ => E e) E K) K s := by
  unfold ensure
  rw [wp_bind, wp_attempt]
  congr 1
  · funext a s'
    exact wp_bind last _ Q s'
  · funext e s'
    exact wp_bind last _ Q s'

/-! ## Triples -/

/-- From every state in `P`, `p` returns into `Q` or raises into `E`, and is in `K` when killed. -/
def Spec (K : σ → Prop) (P : σ → Prop) (p : Prog σ ε α) (Q : α → σ → Prop) (E : ε → σ → Prop) :
    Prop :=
  ∀ s, P s → wp p Q E K s

section

variable {P P' : σ → Prop} {p : Prog σ ε α}

theorem Spec.weaken (h : Spec K P p Q E) (hP : ∀ s, P' s → P s) (hQ : ∀ a s, Q a s → Q' a s)
    (hE : ∀ e s, E e s → E' e s) : Spec K P' p Q' E' :=
  fun s hs => wp_mono hQ hE (fun _ h => h) (h s (hP s hs))

theorem Spec.bind {M : α → σ → Prop} {Q : β → σ → Prop} {k : α → Prog σ ε β}
    (hp : Spec K P p M E) (hk : ∀ a, Spec K (M a) (k a) Q E) : Spec K P (p >>= k) Q E := by
  intro s hs
  rw [wp_bind]
  exact wp_imp (fun a s' hs' => hk a s' hs') (hp s hs)

theorem spec_ret {a : α} (h : ∀ s, P s → Q a s) : Spec K P (ret a : Prog σ ε α) Q E :=
  fun s hs => h s hs

theorem spec_raise {e : ε} (h : ∀ s, P s → E e s) : Spec K P (raise e : Prog σ ε α) Q E :=
  fun s hs => h s hs

theorem spec_get {Q : σ → σ → Prop} (h : ∀ s, P s → Q s s) : Spec K P (get : Prog σ ε σ) Q E :=
  fun s hs => h s hs

theorem spec_step {f : σ → σ} {Q : Unit → σ → Prop} (hK : ∀ s, P s → K s)
    (h : ∀ s, P s → Q () (f s)) : Spec K P (step f : Prog σ ε Unit) Q E :=
  fun s hs => ⟨hK s hs, h s hs⟩

end

/-! ## From the logic to every kill point -/

/-- What `wp` promises of one outcome. -/
def Meets (Q : α → σ → Prop) (E : ε → σ → Prop) (K : σ → Prop) : Outcome σ ε α → Prop
  | .done a s => Q a s
  | .raised e s => E e s
  | .killed s => K s

/-- **Soundness of the crash logic**: `wp` speaks about every kill point. -/
theorem wp_exec (h : wp p Q E K s) (n : Nat) : Meets Q E K (exec p n s) := by
  induction p generalizing s n with
  | ret a => exact h
  | raise e => exact h
  | read next ih => exact ih s h n
  | act f next ih =>
    cases n with
    | zero => exact h.1
    | succ n => exact ih h.2 n

theorem wp_killed {s' : σ} {n : Nat} (h : wp p Q E K s) (hk : exec p n s = .killed s') : K s' := by
  have := wp_exec h n
  rwa [hk] at this

theorem wp_run (h : wp p Q E K s) : match run p s with
    | (.ok a, s') => Q a s'
    | (.error e, s') => E e s' := by
  induction p generalizing s with
  | ret a => exact h
  | raise e => exact h
  | read next ih => exact ih s h
  | act f next ih => exact ih h.2

theorem wp_self (p : Prog σ ε α) (s : σ) :
    wp p (fun a s' => run p s = (.ok a, s')) (fun e s' => run p s = (.error e, s'))
      (fun _ => True) s := by
  induction p generalizing s with
  | ret a => rfl
  | raise e => rfl
  | read next ih => exact ih s s
  | act f next ih => exact ⟨trivial, ih (f s)⟩

theorem wp_returns (h : wp p Q (fun _ _ => False) K s) :
    ∃ a s', run p s = (.ok a, s') ∧ Q a s' := by
  have h' := wp_run h
  rcases hr : run p s with ⟨_ | a, s'⟩
  · rw [hr] at h'; exact h'.elim
  · rw [hr] at h'; exact ⟨a, s', rfl, h'⟩

theorem wp_raises (h : wp p (fun _ _ => False) E K s) :
    ∃ e s', run p s = (.error e, s') ∧ E e s' := by
  have h' := wp_run h
  rcases hr : run p s with ⟨e | _, s'⟩
  · rw [hr] at h'; exact ⟨e, s', rfl, h'⟩
  · rw [hr] at h'; exact h'.elim

/-! ## Running composed programs -/

@[simp] theorem run_pure (a : α) (s : σ) : run (pure a : Prog σ ε α) s = (.ok a, s) := rfl

@[simp] theorem run_ret (a : α) (s : σ) : run (ret a : Prog σ ε α) s = (.ok a, s) := rfl

@[simp] theorem run_raise (e : ε) (s : σ) : run (raise e : Prog σ ε α) s = (.error e, s) := rfl

@[simp] theorem run_get (s : σ) : run (get : Prog σ ε σ) s = (.ok s, s) := rfl

@[simp] theorem run_step (f : σ → σ) (s : σ) : run (step f : Prog σ ε Unit) s = (.ok (), f s) := rfl

theorem run_bind (p : Prog σ ε α) (k : α → Prog σ ε β) (s : σ) :
    run (p >>= k) s = match run p s with
      | (.ok a, s') => run (k a) s'
      | (.error e, s') => (.error e, s') := by
  induction p generalizing s with
  | ret a => rfl
  | raise e => rfl
  | read next ih => exact ih s s
  | act f next ih => exact ih (f s)

variable {k : α → Prog σ ε β}

theorem run_bind_ok {s' : σ} {a : α}
    (h : run p s = (.ok a, s')) : run (p >>= k) s = run (k a) s' := by
  rw [run_bind, h]

theorem run_bind_error {s' : σ} {e : ε}
    (h : run p s = (.error e, s')) : run (p >>= k) s = (.error e, s') := by
  rw [run_bind, h]

theorem run_attempt (p : Prog σ ε α) (s : σ) :
    run (attempt p : Prog σ ε' _) s = (.ok (run p s).1, (run p s).2) := by
  induction p generalizing s with
  | ret a => rfl
  | raise e => rfl
  | read next ih => exact ih s s
  | act f next ih => exact ih (f s)

theorem run_mapError (g : ε → ε') (p : Prog σ ε α) (s : σ) :
    run (mapError g p) s = ((run p s).1.mapError g, (run p s).2) := by
  induction p generalizing s with
  | ret a => rfl
  | raise e => rfl
  | read next ih => exact ih s s
  | act f next ih => exact ih (f s)

theorem run_focus_put (part : Part σ τ) (p : Prog τ ε α) (t : τ) (s : σ) :
    run (focus part p) (part.put t s) = ((run p t).1, part.put (run p t).2 s) := by
  induction p generalizing t with
  | ret a => rfl
  | raise e => rfl
  | read next ih =>
    show run (focus part (next (part.view (part.put t s)))) (part.put t s) = _
    rw [part.view_put]
    exact ih t t
  | act f next ih =>
    show run (focus part next) (part.put (f (part.view (part.put t s))) (part.put t s)) = _
    rw [part.view_put, part.put_put]
    exact ih (f t)

theorem run_focus (part : Part σ τ) (p : Prog τ ε α) (s : σ) :
    run (focus part p) s = ((run p (part.view s)).1, part.put (run p (part.view s)).2 s) := by
  have h := run_focus_put part p (part.view s) s
  rwa [part.put_view] at h

theorem exec_zero_state (p : Prog σ ε α) (s : σ) : (exec p 0 s).state = s := by
  induction p generalizing s with
  | ret a => rfl
  | raise e => rfl
  | read next ih => exact ih s s
  | act f next ih => rfl

theorem exec_get_bind (k : σ → Prog σ ε α) (n : Nat) (s : σ) :
    exec (get >>= k) n s = exec (k s) n s :=
  rfl

theorem exists_exec_eq_run (p : Prog σ ε α) (s : σ) : ∃ n, (exec p n s).state = (run p s).2 := by
  induction p generalizing s with
  | ret a => exact ⟨0, rfl⟩
  | raise e => exact ⟨0, rfl⟩
  | read next ih => exact ih s s
  | act f next ih =>
    obtain ⟨n, hn⟩ := ih (f s)
    exact ⟨n + 1, hn⟩

/-! ## Reachable kills -/

/-- Some kill of `p`, started in `s`, leaves `s'`. -/
def Leaves (p : Prog σ ε α) (s s' : σ) : Prop := ∃ n, exec p n s = .killed s'

theorem Leaves.here (f : σ → σ) (next : Prog σ ε α) (s : σ) : Leaves (act f next) s s := ⟨0, rfl⟩

theorem Leaves.step {f : σ → σ} {next : Prog σ ε α} {s' : σ} (h : Leaves next (f s) s') :
    Leaves (act f next) s s' := by
  obtain ⟨n, hn⟩ := h
  exact ⟨n + 1, hn⟩

theorem Leaves.left {s' : σ} (h : Leaves p s s') : Leaves (p >>= k) s s' := by
  obtain ⟨n, hn⟩ := h
  refine ⟨n, ?_⟩
  induction p generalizing s n with
  | ret a => cases hn
  | raise e => cases hn
  | read next ih => exact ih s n hn
  | act f next ih =>
    cases n with
    | zero => cases hn; rfl
    | succ n => exact ih n hn

theorem Leaves.right {s₁ s' : σ} {a : α}
    (hr : run p s = (.ok a, s₁)) (h : Leaves (k a) s₁ s') : Leaves (p >>= k) s s' := by
  induction p generalizing s with
  | ret b => cases hr; exact h
  | raise e => cases hr
  | read next ih => exact ih s hr
  | act f next ih => exact Leaves.step (ih hr)

end Prog

end Durable
