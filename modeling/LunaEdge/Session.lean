import Mathlib.Data.List.Basic

/-!
# Programs of fallible statements

A program runs statements against a state, one after another. Each
statement may fail from outside, without an effect; which ones do is a
list that the run uses up, and an empty list means that every further
statement is executed. A statement may also fail by itself.

Three ways to reason, with one rule for each way to build a program.
`Done x s a t`: with no outside failures the program returns `a` and ends
in `t`. `Returns E x s Q`: whatever fails from outside, with an error that
`E` admits, if the program returns then with an answer and a state that
satisfy `Q`. `Keeps R x`: whatever fails and however the program ends, it
takes every state to a related one; for a program that uses what it has
read, `Within` also speaks of the outcome.
-/

namespace Session

open List

structure World (ε σ : Type) where
  state : σ
  faults : List (Option ε)

def Prog (ε σ α : Type) : Type := World ε σ → Except ε α × World ε σ

section Programs

variable {ε σ α β : Type}

instance : Monad (Prog ε σ) where
  pure a := fun w => (.ok a, w)
  bind x f := fun w =>
    match x w with
    | (.ok a, w) => f a w
    | (.error e, w) => (.error e, w)

def fail (e : ε) : Prog ε σ α := fun w => (.error e, w)

/-- A call to the outside, with its answer. -/
def answer (r : Except ε α) : Prog ε σ α := fun w => (r, w)

/-- One statement: fails from outside, or is executed. -/
def statement (f : σ → Except ε (α × σ)) : Prog ε σ α := fun w =>
  let faults := w.faults.tail
  match w.faults.head?.join with
  | some e => (.error e, { w with faults })
  | none =>
    match f w.state with
    | .error e => (.error e, { w with faults })
    | .ok (a, s) => (.ok a, ⟨s, faults⟩)

def query (f : σ → Except ε α) : Prog ε σ α := statement fun s => (f s).map (·, s)

def update (f : σ → σ) : Prog ε σ Unit := statement fun s => .ok ((), f s)

/-- A step that is no statement and cannot fail. -/
def effect (f : σ → σ) : Prog ε σ Unit := fun w => (.ok (), { w with state := f w.state })

/-- Look at the state without a statement. -/
def peek (f : σ → α) : Prog ε σ α := fun w => (.ok (f w.state), w)

/-- The outcome of a program as a value. -/
def attempt (x : Prog ε σ α) : Prog ε σ (Except ε α) := fun w => (.ok (x w).1, (x w).2)

/-- `BEGIN`, the body, `COMMIT`; anything that fails rolls back. -/
def transaction (body : Prog ε σ α) : Prog ε σ α := fun w =>
  match (do update id; let a ← body; update id; pure a : Prog ε σ α) w with
  | (.ok a, w') => (.ok a, w')
  | (.error e, w') => (.error e, { w' with state := w.state })

variable {x : Prog ε σ α} {f : α → Prog ε σ β} {w w' : World ε σ} {a : α} {t s : σ}
  {Q : Except ε α → σ → Prop}

theorem bind_ok (h : x w = (.ok a, w')) : (x >>= f) w = f a w' := by
  show (match x w with
    | (.ok a, w) => f a w
    | (.error e, w) => (.error e, w)) = _
  rw [h]

theorem bind_error {e : ε} (h : x w = (.error e, w')) : (x >>= f) w = (.error e, w') := by
  show (match x w with
    | (.ok a, w) => f a w
    | (.error e, w) => (.error e, w)) = _
  rw [h]

theorem bind_bind {γ : Type} (x : Prog ε σ α) (f : α → Prog ε σ β) (g : β → Prog ε σ γ) :
    x >>= f >>= g = x >>= fun a => f a >>= g := by
  funext w
  rcases hx : x w with ⟨e | a, v⟩
  · rw [bind_error (bind_error hx), bind_error hx]
  · rw [bind_ok hx]
    show (match (x >>= f) w with
      | (.ok b, v) => g b v
      | (.error e, v) => (.error e, v)) = _
    rw [bind_ok hx]
    rfl

/-! ## What a run that returned has done -/

theorem bind_eq_ok {b : β} (h : (x >>= f) w = (.ok b, w')) :
    ∃ a v, x w = (.ok a, v) ∧ f a v = (.ok b, w') := by
  rcases hx : x w with ⟨e | a, v⟩
  · rw [bind_error hx] at h
    cases h
  · rw [bind_ok hx] at h
    exact ⟨a, v, rfl, h⟩

theorem answer_eq_ok {r : Except ε α} (h : answer r w = (.ok a, w')) : r = .ok a ∧ w' = w :=
  ⟨congrArg Prod.fst h, (congrArg Prod.snd h).symm⟩

theorem statement_eq_ok {f : σ → Except ε (α × σ)} (h : statement f w = (.ok a, w')) :
    w.faults.head?.join = none ∧ f w.state = .ok (a, w'.state) ∧ w'.faults = w.faults.tail := by
  unfold statement at h
  dsimp only at h
  split at h
  · cases h
  · rename_i hfault
    split at h
    · cases h
    · rename_i b t hf
      cases h
      exact ⟨hfault, hf, rfl⟩

theorem query_eq_ok {f : σ → Except ε α} (h : query f w = (.ok a, w')) :
    w.faults.head?.join = none ∧ f w.state = .ok a ∧ w' = ⟨w.state, w.faults.tail⟩ := by
  obtain ⟨hfault, hf, hrest⟩ := statement_eq_ok h
  rcases hq : f w.state with e | b
  · rw [hq] at hf
    cases hf
  · rw [hq] at hf
    obtain ⟨t, faults⟩ := w'
    cases hf
    cases hrest
    exact ⟨hfault, rfl, rfl⟩

/-- A query that is tried always returns, with what it has found or why it
failed. -/
theorem attempt_query (f : σ → Except ε α) (w : World ε σ) :
    attempt (query f) w
      = (.ok (w.faults.head?.join.elim (f w.state) .error), ⟨w.state, w.faults.tail⟩) := by
  unfold attempt query statement
  cases w.faults.head?.join with
  | some e => rfl
  | none =>
    dsimp only
    cases f w.state <;> rfl

/-! ## Runs without outside failures -/

/-- The program returns `a` and ends in `t`, when nothing fails from outside. -/
def Done (x : Prog ε σ α) (s : σ) (a : α) (t : σ) : Prop := x ⟨s, []⟩ = (.ok a, ⟨t, []⟩)

theorem Done.state_eq (h : Done x s a t) : (x ⟨s, []⟩).2.state = t := by
  rw [show x ⟨s, []⟩ = _ from h]

theorem Done.pure (a : α) (s : σ) : Done (Pure.pure a : Prog ε σ α) s a s := rfl

theorem Done.bind {u : σ} {b : β} (hx : Done x s a t) (hf : Done (f a) t b u) :
    Done (x >>= f) s b u :=
  (bind_ok hx).trans hf

theorem Done.statement {f : σ → Except ε (α × σ)} (h : f s = .ok (a, t)) :
    Done (statement f) s a t := by
  simp [Done, Session.statement, h]

theorem Done.query {f : σ → Except ε α} (h : f s = .ok a) : Done (query f) s a s :=
  Done.statement (by rw [h]; rfl)

theorem Done.update (f : σ → σ) (s : σ) : Done (update f : Prog ε σ Unit) s () (f s) :=
  Done.statement rfl

theorem Done.effect (f : σ → σ) (s : σ) : Done (effect f : Prog ε σ Unit) s () (f s) := rfl

theorem Done.peek (f : σ → α) (s : σ) : Done (peek f : Prog ε σ α) s (f s) s := rfl

theorem Done.attempt (h : Done x s a t) : Done (attempt x) s (.ok a) t := by
  have hx : x ⟨s, []⟩ = (.ok a, ⟨t, []⟩) := h
  simp [Done, Session.attempt, hx]

theorem Done.attempt_query_error {f : σ → Except ε α} {e : ε} (h : f s = .error e) :
    Done (Session.attempt (Session.query f)) s (.error e) s := by
  simp [Done, Session.attempt, Session.query, Session.statement, h, Except.map]

theorem Done.transaction {body : Prog ε σ α} (h : Done body s a t) :
    Done (transaction body) s a t := by
  have hx : Done (do Session.update id; let a ← body; Session.update id; Pure.pure a :
      Prog ε σ α) s a t :=
    (Done.update id s).bind (h.bind ((Done.update id t).bind (Done.pure a t)))
  have hx' := show _ = _ from hx
  simp only [Done, Session.transaction, hx']

theorem Done.forM {f : β → Prog ε σ PUnit} {g : σ → β → σ}
    (h : ∀ b s, Done (f b) s () (g s b)) (l : List β) (s : σ) :
    Done (l.forM f) s () (l.foldl g s) := by
  induction l generalizing s with
  | nil => exact Done.pure () s
  | cons b l ih =>
    rw [forM_eq_forM, forM_cons, foldl_cons]
    exact (h b s).bind (ih _)

/-- A loop keeps an invariant that may speak of the part already done. -/
theorem Done.foldlM {f : α → β → Prog ε σ α} {I : List β → α → σ → Prop}
    (hstep : ∀ pre a b s, I pre a s → ∃ a' t, Done (f a b) s a' t ∧ I (pre ++ [b]) a' t)
    (l : List β) (h : I [] a s) : ∃ a' t, Done (l.foldlM f a) s a' t ∧ I l a' t := by
  have hfrom : ∀ (l pre : List β) (a : α) (s : σ), I pre a s →
      ∃ a' t, Done (l.foldlM f a) s a' t ∧ I (pre ++ l) a' t := by
    intro l
    induction l with
    | nil =>
      intro pre a s hI
      rw [append_nil]
      exact ⟨a, s, Done.pure a s, hI⟩
    | cons b l ih =>
      intro pre a s hI
      obtain ⟨a₁, s₁, hdone, hI₁⟩ := hstep pre a b s hI
      obtain ⟨a₂, s₂, hdone₂, hI₂⟩ := ih _ a₁ s₁ hI₁
      rw [append_assoc] at hI₂
      exact ⟨a₂, s₂, by rw [foldlM_cons]; exact hdone.bind hdone₂, hI₂⟩
  exact hfrom l [] a s h

theorem Done.unique {u : σ} {b : α} (h : Done x s a t) (h' : Done x s b u) : b = a ∧ u = t := by
  have heq : (Except.ok a, (⟨t, []⟩ : World ε σ)) = (.ok b, ⟨u, []⟩) := h.symm.trans h'
  cases heq
  exact ⟨rfl, rfl⟩

/-! ## Runs that return -/

/-- If the program returns, its answer and its last state satisfy `Q`;
what fails from outside fails with an error that `E` admits. -/
def Returns (E : ε → Prop) (x : Prog ε σ α) (s : σ) (Q : α → σ → Prop) : Prop :=
  ∀ faults, (∀ e, some e ∈ faults → E e) → ∀ a w, x ⟨s, faults⟩ = (.ok a, w) →
    Q a w.state ∧ ∀ e, some e ∈ w.faults → E e

section Returns

variable {E : ε → Prop} {s : σ}

variable {Q : α → σ → Prop}

theorem Returns.mono {x : Prog ε σ α} {Q' : α → σ → Prop} (h : Returns E x s Q)
    (hQ : ∀ a t, Q a t → Q' a t) : Returns E x s Q' := fun faults hE a w hrun =>
  (h faults hE a w hrun).imp_left (hQ _ _)

theorem Returns.pure {a : α} (h : Q a s) : Returns E (Pure.pure a) s Q := by
  intro faults hE a' w hrun
  cases hrun
  exact ⟨h, hE⟩

theorem Returns.fail {e : ε} : Returns E (fail e) s Q := by
  intro faults _ a w hrun
  cases hrun

theorem Returns.bind {x : Prog ε σ α} {f : α → Prog ε σ β} {P : α → σ → Prop}
    {Q : β → σ → Prop} (hx : Returns E x s P) (hf : ∀ a t, P a t → Returns E (f a) t Q) :
    Returns E (x >>= f) s Q := by
  intro faults hE b w hrun
  rcases hr : x ⟨s, faults⟩ with ⟨e | a, w'⟩
  · rw [bind_error hr] at hrun
    cases hrun
  · rw [bind_ok hr] at hrun
    obtain ⟨hP, hE'⟩ := hx faults hE a w' hr
    exact hf a w'.state hP w'.faults hE' b w hrun

theorem Returns.statement {f : σ → Except ε (α × σ)} (h : ∀ a t, f s = .ok (a, t) → Q a t) :
    Returns E (statement f) s Q := by
  intro faults hE a w hrun
  have htail : ∀ e, some e ∈ faults.tail → E e := fun e he => hE e (mem_of_mem_tail he)
  unfold Session.statement at hrun
  dsimp only at hrun
  cases hfault : faults.head?.join with
  | some e =>
    rw [hfault] at hrun
    cases hrun
  | none =>
    rw [hfault] at hrun
    rcases hf : f s with e | ⟨a', t⟩
    · simp only [hf] at hrun
      cases hrun
    · simp only [hf] at hrun
      cases hrun
      exact ⟨h a t hf, htail⟩

theorem Returns.update {f : σ → σ} {Q : Unit → σ → Prop} (h : Q () (f s)) :
    Returns E (update f) s Q :=
  Returns.statement fun a t hf => by
    cases hf
    exact h

theorem Done.returns_statement {f : σ → Except ε (α × σ)} {t : σ} {a : α}
    (h : Done (Session.statement f) s a t) :
    Returns E (Session.statement f) s fun a' t' => a' = a ∧ t' = t := by
  refine Returns.statement fun a' t' hf => ?_
  exact (Done.unique h (Done.statement hf))

theorem Returns.effect {f : σ → σ} {Q : Unit → σ → Prop} (h : Q () (f s)) :
    Returns E (effect f) s Q := by
  intro faults hE a w hrun
  cases hrun
  exact ⟨h, hE⟩

theorem Returns.attempt_query {f : σ → Except ε α} {Q : Except ε α → σ → Prop}
    (hself : Q (f s) s) (houtside : ∀ e, E e → Q (.error e) s) :
    Returns E (Session.attempt (Session.query f)) s Q := by
  intro faults hE r w hrun
  have htail : ∀ e, some e ∈ faults.tail → E e := fun e he => hE e (mem_of_mem_tail he)
  unfold Session.attempt Session.query Session.statement at hrun
  dsimp only at hrun
  cases hfault : faults.head?.join with
  | some e =>
    have hmem : some e ∈ faults := by
      cases faults with
      | nil => cases hfault
      | cons x xs =>
        obtain rfl : x = some e := hfault
        exact mem_cons_self
    rw [hfault] at hrun
    cases hrun
    exact ⟨houtside e (hE e hmem), htail⟩
  | none =>
    rw [hfault] at hrun
    rcases hf : f s with e | a
    · simp only [hf, Except.map] at hrun
      cases hrun
      exact ⟨hf ▸ hself, htail⟩
    · simp only [hf, Except.map] at hrun
      cases hrun
      exact ⟨hf ▸ hself, htail⟩

theorem Returns.foldlM {f : α → β → Prog ε σ α} {I : σ → Prop}
    (h : ∀ a b s, I s → Returns E (f a b) s fun _ t => I t) (l : List β) (a : α) {s : σ}
    (hs : I s) : Returns E (l.foldlM f a) s fun _ t => I t := by
  induction l generalizing a s with
  | nil => exact Returns.pure hs
  | cons b l ih =>
    rw [foldlM_cons]
    exact (h a b s hs).bind fun a' t ht => ih a' ht

end Returns

/-! ## Runs with any failures -/

/-- However it ends, the program started in `s` has an outcome and a last
state that satisfy `Q`. -/
def Within (x : Prog ε σ α) (s : σ) (Q : Except ε α → σ → Prop) : Prop :=
  ∀ faults, Q (x ⟨s, faults⟩).1 (x ⟨s, faults⟩).2.state

theorem Within.mono {Q' : Except ε α → σ → Prop} (h : Within x s Q) (hQ : ∀ r t, Q r t → Q' r t) :
    Within x s Q' :=
  fun faults => hQ _ _ (h faults)

theorem Within.bind {Q : Except ε β → σ → Prop} {P : Except ε α → σ → Prop} (hx : Within x s P)
    (herror : ∀ e t, P (.error e) t → Q (.error e) t) (hok : ∀ a t, P (.ok a) t → Within (f a) t Q) :
    Within (x >>= f) s Q := by
  intro faults
  have hP := hx faults
  rcases hr : x ⟨s, faults⟩ with ⟨e | a, w⟩
  · rw [hr] at hP
    rw [bind_error hr]
    exact herror e w.state hP
  · rw [hr] at hP
    rw [bind_ok hr]
    exact hok a w.state hP w.faults

theorem Within.pure (h : Q (.ok a) s) : Within (Pure.pure a) s Q :=
  fun _ => h

theorem Within.fail {e : ε} (h : Q (.error e) s) : Within (fail e) s Q :=
  fun _ => h

theorem Within.answer {r : Except ε α} (h : Q r s) : Within (answer r) s Q :=
  fun _ => h

theorem Within.statement {f : σ → Except ε (α × σ)} (herror : ∀ e, Q (.error e) s)
    (hok : ∀ a t, f s = .ok (a, t) → Q (.ok a) t) : Within (statement f) s Q := by
  intro faults
  rw [Session.statement]
  simp only
  cases faults.head?.join with
  | some e => exact herror e
  | none =>
    rcases hf : f s with e | ⟨a, t⟩
    · exact herror e
    · exact hok a t hf

theorem Within.query {f : σ → Except ε α} (herror : ∀ e, Q (.error e) s)
    (hok : ∀ a, f s = .ok a → Q (.ok a) s) : Within (query f) s Q := by
  refine Within.statement herror fun a t hf => ?_
  rcases hq : f s with e | b
  · rw [hq] at hf
    cases hf
  · rw [hq] at hf
    cases hf
    exact hok a hq

theorem Within.attempt {Q : Except ε (Except ε α) → σ → Prop}
    (h : Within x s fun r t => Q (.ok r) t) : Within (attempt x) s Q :=
  fun faults => h faults

theorem Within.foldlM {f : α → β → Prog ε σ α} {I : σ → Prop} {l : List β}
    (h : ∀ a, ∀ b ∈ l, ∀ s, I s → Within (f a b) s fun _ t => I t) (a : α) (hs : I s) :
    Within (l.foldlM f a) s fun _ t => I t := by
  induction l generalizing a s with
  | nil => exact Within.pure hs
  | cons b l ih =>
    rw [foldlM_cons]
    exact (h a b mem_cons_self s hs).bind (fun _ _ ht => ht) fun a' t ht =>
      ih (fun a b hb => h a b (mem_cons_of_mem _ hb)) a' ht

/-! ## What a program may do to the state -/

/-- However the program ends, its last state is related to its first. -/
def Keeps (R : σ → σ → Prop) (x : Prog ε σ α) : Prop := ∀ s, Within x s fun _ t => R s t

section Keeps

variable {R : σ → σ → Prop} (hrefl : ∀ s, R s s)
  (htrans : ∀ s t u, R s t → R t u → R s u)

include hrefl in
theorem Keeps.pure (a : α) : Keeps R (Pure.pure a : Prog ε σ α) := fun s _ => hrefl s

include hrefl in
theorem Keeps.fail (e : ε) : Keeps R (fail e : Prog ε σ α) := fun s _ => hrefl s

include htrans in
theorem Keeps.bind {x : Prog ε σ α} {f : α → Prog ε σ β} (hx : Keeps R x)
    (hf : ∀ a, Keeps R (f a)) : Keeps R (x >>= f) := fun s =>
  (hx s).bind (fun _ _ h => h) fun a t hst =>
    (hf a t).mono fun _ _ htu => htrans _ _ _ hst htu

include hrefl in
theorem Keeps.statement {f : σ → Except ε (α × σ)}
    (h : ∀ s a t, f s = .ok (a, t) → R s t) : Keeps R (statement f) := fun s =>
  Within.statement (fun _ => hrefl s) (h s)

include hrefl in
theorem Keeps.query (f : σ → Except ε α) : Keeps R (query f) := fun s =>
  Within.query (fun _ => hrefl s) fun _ _ => hrefl s

include hrefl in
theorem Keeps.update {f : σ → σ} (h : ∀ s, R s (f s)) : Keeps R (update f : Prog ε σ Unit) :=
  Keeps.statement hrefl fun s a t hst => by
    cases hst
    exact h s

theorem Keeps.effect {f : σ → σ} (h : ∀ s, R s (f s)) :
    Keeps R (effect f : Prog ε σ Unit) := fun s _ => h s

theorem Keeps.attempt {x : Prog ε σ α} (h : Keeps R x) : Keeps R (attempt x) := fun s =>
  Within.attempt (h s)

include hrefl htrans in
theorem Keeps.foldlM {f : α → β → Prog ε σ α} (h : ∀ a b, Keeps R (f a b)) (l : List β)
    (a : α) : Keeps R (l.foldlM f a) := by
  induction l generalizing a with
  | nil => exact Keeps.pure hrefl a
  | cons b l ih =>
    rw [foldlM_cons]
    exact (h a b).bind htrans fun a' => ih a'

include hrefl htrans in
theorem Keeps.forM {f : β → Prog ε σ PUnit} {l : List β} (h : ∀ b ∈ l, Keeps R (f b)) :
    Keeps R (l.forM f) := by
  induction l with
  | nil => exact Keeps.pure hrefl ()
  | cons b l ih =>
    rw [forM_eq_forM, forM_cons]
    exact (h b mem_cons_self).bind htrans fun _ =>
      ih fun b' hb' => h b' (mem_cons_of_mem b hb')

end Keeps

end Programs

end Session
