
/-!
# Programs that ask their environment

A program is a tree: it is done with a result, or it makes a request and goes on with
whatever answer it gets.  Nothing is said about the environment until one is chosen.

* `Uses`, `Makes`: the requests a program can make, whatever it is answered;
* `Ensures`: what holds after a program in an environment that answers as it likes within
  a relation;
* `eval`: a program in an environment that is a function;
* `Recorded`: programs that can fail and keep a record that survives the failure.
-/

namespace Interaction

/-- A program that asks its environment for answers. -/
inductive Program (Request : Type) (Answer : Request → Type) (α : Type) : Type where
  | done (result : α)
  | ask (request : Request) (next : Answer request → Program Request Answer α)

variable {Request α β σ : Type} {Answer : Request → Type} {allowed : Request → Prop}
  {program : Program Request Answer α} {step : σ → (request : Request) → Answer request → σ → Prop}
  {state : σ} {respond : σ → (request : Request) → Answer request × σ}

namespace Program

variable {γ : Type} {request : Request}

/-- One program after another. -/
def bind : Program Request Answer α → (α → Program Request Answer β) → Program Request Answer β
  | done result, next => next result
  | ask request rest, next => .ask request fun answer => (rest answer).bind next

instance : Monad (Program Request Answer) where
  pure := done
  bind := bind

theorem bind_done (program : Program Request Answer α) : program.bind done = program := by
  induction program with
  | done result => rfl
  | ask request rest ih => exact congrArg (ask request) (funext ih)

theorem bind_assoc (program : Program Request Answer α) (first : α → Program Request Answer β)
    (second : β → Program Request Answer γ) :
    (program.bind first).bind second = program.bind fun result => (first result).bind second := by
  induction program with
  | done result => rfl
  | ask request rest ih => exact congrArg (ask request) (funext ih)

instance : LawfulMonad (Program Request Answer) :=
  LawfulMonad.mk' (Program Request Answer) bind_done (fun _ _ => rfl) bind_assoc

/-- One request. -/
def perform (request : Request) : Program Request Answer (Answer request) := .ask request .done

/-! ## Requests -/

/-- The program makes the request, if it gets the right answers. -/
inductive Makes : Program Request Answer α → Request → Prop where
  | here {request : Request} {next : Answer request → Program Request Answer α} :
      Makes (.ask request next) request
  | later {request other : Request} {next : Answer request → Program Request Answer α}
      (answer : Answer request) (h : Makes (next answer) other) : Makes (.ask request next) other

/-- All requests of the program are allowed, whatever it is answered. -/
def Uses (allowed : Request → Prop) : Program Request Answer α → Prop
  | done _ => True
  | ask request next => allowed request ∧ ∀ answer, (next answer).Uses allowed

variable {next : α → Program Request Answer β}

theorem Uses.of_makes (h : program.Uses allowed) (hmakes : program.Makes request) :
    allowed request := by
  induction hmakes with
  | here => exact h.1
  | later answer _ ih => exact ih (h.2 answer)

theorem Uses.mono {wider : Request → Prop} (h : program.Uses allowed)
    (himp : ∀ request, allowed request → wider request) : program.Uses wider := by
  induction program with
  | done result => trivial
  | ask request rest ih => exact ⟨himp request h.1, fun answer => ih answer (h.2 answer)⟩

theorem uses_pure (result : α) : (pure result : Program Request Answer α).Uses allowed := trivial

theorem uses_perform (h : allowed request) :
    (perform request : Program Request Answer _).Uses allowed :=
  ⟨h, fun _ => trivial⟩

theorem Uses.bind (h : program.Uses allowed) (hnext : ∀ result, (next result).Uses allowed) :
    (program >>= next).Uses allowed := by
  induction program with
  | done result => exact hnext result
  | ask request rest ih => exact ⟨h.1, fun answer => ih answer (h.2 answer)⟩

/-! ## Environments that answer within a relation -/

/-- The postcondition holds after every run from the state, if the environment takes the
steps that `step` allows. -/
def Ensures (step : σ → (request : Request) → Answer request → σ → Prop) (post : α → σ → Prop) :
    Program Request Answer α → σ → Prop
  | done result, state => post result state
  | ask request next, state => ∀ answer after, step state request answer after →
      (next answer).Ensures step post after

/-- A run of a program. -/
inductive Runs (step : σ → (request : Request) → Answer request → σ → Prop) :
    Program Request Answer α → σ → α → σ → Prop where
  | done {result : α} {state : σ} : Runs step (.done result) state result state
  | ask {request : Request} {next : Answer request → Program Request Answer α}
      {state after final : σ} {answer : Answer request} {result : α}
      (hstep : step state request answer after) (h : Runs step (next answer) after result final) :
      Runs step (.ask request next) state result final

variable {post weaker : α → σ → Prop}

theorem Ensures.of_runs (h : program.Ensures step post state) {result : α} {final : σ}
    (hrun : Runs step program state result final) : post result final := by
  induction hrun with
  | done => exact h
  | ask hstep _ ih => exact ih (h _ _ hstep)

theorem Ensures.mono (h : program.Ensures step post state)
    (himp : ∀ result after, post result after → weaker result after) :
    program.Ensures step weaker state := by
  induction program generalizing state with
  | done result => exact himp _ _ h
  | ask request next ih => exact fun answer after hstep => ih answer (h answer after hstep)

/-- What always holds. -/
theorem ensures_of_forall (h : ∀ result after, post result after)
    (program : Program Request Answer α)
    (state : σ) : program.Ensures step post state := by
  induction program generalizing state with
  | done result => exact h result state
  | ask request next ih => exact fun answer after _ => ih answer after

/-- **The rule of sequence.** -/
theorem ensures_bind {post : β → σ → Prop} : (program >>= next).Ensures step post state ↔
    program.Ensures step (fun result after => (next result).Ensures step post after) state := by
  induction program generalizing state with
  | done result => rfl
  | ask request rest ih =>
    exact forall_congr' fun answer => forall_congr' fun after => imp_congr_right fun _ => ih answer

/-! ## Environments that are functions -/

/-- The result of a program, and the state it leaves. -/
def eval (respond : σ → (request : Request) → Answer request × σ) :
    Program Request Answer α → σ → α × σ
  | done result, state => (result, state)
  | ask request next, state =>
    (next (respond state request).1).eval respond (respond state request).2

@[simp] theorem eval_pure (result : α) :
    (pure result : Program Request Answer α).eval respond state = (result, state) := rfl

@[simp] theorem eval_bind : (program >>= next).eval respond state =
    (next (program.eval respond state).1).eval respond (program.eval respond state).2 := by
  induction program generalizing state with
  | done result => rfl
  | ask request rest ih => exact ih _

@[simp] theorem eval_perform (request : Request) :
    (perform request).eval respond state = respond state request := rfl

/-- The requests of a program in an environment that is a function. -/
def asked (respond : σ → (request : Request) → Answer request × σ) :
    Program Request Answer α → σ → List Request
  | done _, _ => []
  | ask request next, state =>
    request :: (next (respond state request).1).asked respond (respond state request).2

theorem makes_of_mem_asked {request : Request} (h : request ∈ program.asked respond state) :
    program.Makes request := by
  induction program generalizing state with
  | done result => cases h
  | ask first next ih =>
    rcases List.mem_cons.mp h with rfl | h
    · exact .here
    · exact .later _ (ih _ h)

/-- An environment that is a function and stays within a relation. -/
theorem runs_eval (h : ∀ state request, step state request (respond state request).1
      (respond state request).2) (program : Program Request Answer α) (state : σ) :
    Runs step program state (program.eval respond state).1 (program.eval respond state).2 := by
  induction program generalizing state with
  | done result => exact .done
  | ask request next ih => exact .ask (h state request) (ih _ _)

end Program

/-! ## Failures and a record -/

/-- A program that can fail, and that keeps a record whether it fails or not. -/
abbrev Recorded (Request : Type) (Answer : Request → Type) (δ ε α : Type) : Type :=
  ExceptT ε (StateT δ (Program Request Answer)) α

namespace Recorded

variable {δ ε : Type}

/-- The program with the record it starts from. -/
def start (x : Recorded Request Answer δ ε α) (record : δ) :
    Program Request Answer (Except ε α × δ) :=
  StateT.run (ExceptT.run x) record

variable {x : Recorded Request Answer δ ε α} {next : α → Recorded Request Answer δ ε β} {record : δ}
  {f : β → α → Recorded Request Answer δ ε β}

@[simp] theorem start_pure (result : α) :
    (pure result : Recorded Request Answer δ ε α).start record = pure (.ok result, record) := rfl

@[simp] theorem start_throw (e : ε) :
    (throw e : Recorded Request Answer δ ε α).start record = pure (.error e, record) := rfl

@[simp] theorem start_modify (f : δ → δ) :
    (modify f : Recorded Request Answer δ ε PUnit).start record = pure (.ok ⟨⟩, f record) := rfl

@[simp] theorem start_lift (program : Program Request Answer α) :
    (monadLift program : Recorded Request Answer δ ε α).start record =
      program >>= fun result => pure (.ok result, record) := by
  induction program with
  | done result => rfl
  | ask request rest ih => exact congrArg (Program.ask request) (funext ih)

@[simp] theorem start_get :
    (get : Recorded Request Answer δ ε δ).start record = pure (.ok record, record) := rfl

/-- What follows a failure is skipped. -/
theorem start_bind : (x >>= next).start record = x.start record >>= fun outcome =>
    match outcome.1 with
    | .ok result => (next result).start outcome.2
    | .error e => pure (.error e, outcome.2) := by
  refine congrArg (x.start record >>= ·) (funext fun outcome => ?_)
  obtain ⟨result, record⟩ := outcome
  cases result <;> rfl

/-- A result that is there already, or a failure. -/
def ofExcept : Except ε α → Recorded Request Answer δ ε α
  | .ok result => pure result
  | .error e => throw e

@[simp] theorem start_ofExcept (result : Except ε α) :
    (ofExcept result : Recorded Request Answer δ ε α).start record = pure (result, record) := by
  cases result <;> rfl

/-- All requests are allowed, whatever the record is. -/
def Uses (allowed : Request → Prop) (x : Recorded Request Answer δ ε α) : Prop :=
  ∀ record, (x.start record).Uses allowed

theorem Uses.mono {wider : Request → Prop} (h : x.Uses allowed)
    (himp : ∀ request, allowed request → wider request) : x.Uses wider :=
  fun record => (h record).mono himp

theorem uses_pure (result : α) : (pure result : Recorded Request Answer δ ε α).Uses allowed :=
  fun _ => trivial

theorem uses_throw (e : ε) : (throw e : Recorded Request Answer δ ε α).Uses allowed :=
  fun _ => trivial

theorem uses_modify (f : δ → δ) : Uses allowed (modify f : Recorded Request Answer δ ε PUnit) :=
  fun _ => trivial

theorem uses_get : Uses allowed (get : Recorded Request Answer δ ε δ) := fun _ => trivial

theorem uses_ofExcept (result : Except ε α) :
    Uses allowed (ofExcept result : Recorded Request Answer δ ε α) := fun record => by
  rw [start_ofExcept]
  trivial

theorem uses_lift (h : program.Uses allowed) :
    Uses allowed (monadLift program : Recorded Request Answer δ ε α) := fun record => by
  rw [start_lift]
  exact h.bind fun _ => trivial

theorem Uses.bind (h : x.Uses allowed) (hnext : ∀ result, (next result).Uses allowed) :
    (x >>= next).Uses allowed := fun record => by
  refine (h record).bind fun outcome => ?_
  obtain ⟨result, after⟩ := outcome
  cases result with
  | ok result => exact hnext result after
  | error e => trivial

/-- What follows a result that is there already. -/
theorem uses_ofExcept_bind {result : Except ε α}
    (h : ∀ value, result = .ok value → (next value).Uses allowed) :
    (ofExcept result >>= next : Recorded Request Answer δ ε β).Uses allowed := fun record => by
  cases result with
  | ok value => exact h value rfl record
  | error e => trivial

theorem Uses.foldlM {xs : List α}
    (h : ∀ acc, ∀ x ∈ xs, (f acc x).Uses allowed) (acc : β) : (xs.foldlM f acc).Uses allowed := by
  induction xs generalizing acc with
  | nil => exact uses_pure acc
  | cons x xs ih =>
    exact (h acc x List.mem_cons_self).bind (ih fun acc y hy => h acc y (List.mem_cons_of_mem _ hy))

/-- What holds after every run from the record and the state. -/
def Ensures (step : σ → (request : Request) → Answer request → σ → Prop)
    (post : Except ε α → δ → σ → Prop) (x : Recorded Request Answer δ ε α) (record : δ)
    (state : σ) :
    Prop :=
  (x.start record).Ensures step (fun outcome => post outcome.1 outcome.2) state

variable {post weaker : Except ε α → δ → σ → Prop}

theorem Ensures.mono (h : x.Ensures step post record state)
    (himp : ∀ result record state, post result record state → weaker result record state) :
    x.Ensures step weaker record state :=
  Program.Ensures.mono h fun outcome after => himp outcome.1 outcome.2 after

/-- **The rule of sequence**, with the failure passed on. -/
theorem ensures_bind {post : Except ε β → δ → σ → Prop} :
    (x >>= next).Ensures step post record state ↔
      x.Ensures step (fun outcome after state => match outcome with
        | .ok result => (next result).Ensures step post after state
        | .error e => post (.error e) after state) record state := by
  unfold Ensures
  rw [start_bind, Program.ensures_bind]
  refine iff_of_eq (congrArg (fun post => (x.start record).Ensures step post state) ?_)
  funext outcome after
  obtain ⟨result, record⟩ := outcome
  cases result <;> rfl

/-- The rule of sequence, with a postcondition in between. -/
theorem Ensures.bind {between : Except ε α → δ → σ → Prop} {post : Except ε β → δ → σ → Prop}
    (h : x.Ensures step between record state)
    (hok : ∀ result record state, between (.ok result) record state →
      (next result).Ensures step post record state)
    (herror : ∀ e record state, between (.error e) record state → post (.error e) record state) :
    (x >>= next).Ensures step post record state := by
  refine ensures_bind.mpr (h.mono fun outcome record state hbtw => ?_)
  cases outcome with
  | ok result => exact hok result record state hbtw
  | error e => exact herror e record state hbtw

/-- **The rule of iteration**: what every step keeps, also when it fails, is kept. -/
theorem Ensures.foldlM {inv : δ → σ → Prop}
    {xs : List α} (hstep : ∀ acc, ∀ x ∈ xs, ∀ record state, inv record state →
      (f acc x).Ensures step (fun _ => inv) record state) (acc : β) (h : inv record state) :
    (xs.foldlM f acc).Ensures step (fun _ => inv) record state := by
  induction xs generalizing acc record state with
  | nil => exact h
  | cons x xs ih =>
    exact (hstep acc x List.mem_cons_self record state h).bind (fun acc record state hinv => ih
        (fun acc y hy => hstep acc y (List.mem_cons_of_mem _ hy)) acc hinv) (fun _ _ _ hinv => hinv)

theorem ensures_modify (f : δ → δ) {post : Except ε PUnit → δ → σ → Prop} :
    Ensures step post (modify f : Recorded Request Answer δ ε PUnit) record state ↔
      post (.ok ⟨⟩) (f record) state := Iff.rfl

theorem ensures_get {post : Except ε δ → δ → σ → Prop} :
    Ensures step post (get : Recorded Request Answer δ ε δ) record state ↔
      post (.ok record) record state := Iff.rfl

theorem ensures_ofExcept (result : Except ε α) :
    Ensures step post (ofExcept result : Recorded Request Answer δ ε α) record state ↔
      post result record state := by
  cases result <;> rfl

theorem ensures_lift :
    Ensures step post (monadLift program : Recorded Request Answer δ ε α) record state ↔
      program.Ensures step (fun result after => post (.ok result) record after) state := by
  unfold Ensures
  rw [start_lift, Program.ensures_bind]
  rfl

/-! ### Evaluation -/

/-- The outcome, the record and the state in an environment that is a function. -/
def eval (respond : σ → (request : Request) → Answer request × σ)
    (x : Recorded Request Answer δ ε α)
    (record : δ) (state : σ) : (Except ε α × δ) × σ :=
  (x.start record).eval respond state

@[simp] theorem eval_pure (result : α) :
    eval respond (pure result : Recorded Request Answer δ ε α) record state =
      ((.ok result, record), state) := rfl

@[simp] theorem eval_throw (e : ε) :
    eval respond (throw e : Recorded Request Answer δ ε α) record state =
      ((.error e, record), state) := rfl

@[simp] theorem eval_modify (f : δ → δ) :
    eval respond (modify f : Recorded Request Answer δ ε PUnit) record state =
      ((.ok ⟨⟩, f record), state) := rfl

@[simp] theorem eval_get : eval respond (get : Recorded Request Answer δ ε δ) record state =
    ((.ok record, record), state) := rfl

@[simp] theorem eval_ofExcept (result : Except ε α) :
    eval respond (ofExcept result : Recorded Request Answer δ ε α) record state =
      ((result, record), state) := by
  cases result <;> rfl

@[simp] theorem eval_lift (program : Program Request Answer α) :
    eval respond (monadLift program : Recorded Request Answer δ ε α) record state =
      ((.ok (program.eval respond state).1, record), (program.eval respond state).2) := by
  rw [eval, start_lift, Program.eval_bind]
  rfl

theorem eval_bind : eval respond (x >>= next) record state =
    match eval respond x record state with
    | ((.ok result, after), state) => eval respond (next result) after state
    | ((.error e, after), state) => ((.error e, after), state) := by
  unfold eval
  rw [start_bind, Program.eval_bind]
  generalize (x.start record).eval respond state = outcome
  obtain ⟨⟨result, after⟩, state⟩ := outcome
  cases result <;> rfl

theorem eval_bind_ok {result : α} {after : δ} {between : σ}
    (h : eval respond x record state = ((.ok result, after), between)) :
    eval respond (x >>= next) record state = eval respond (next result) after between := by
  rw [eval_bind, h]

/-- A program that succeeded: its first part did, and the rest did on its result. -/
theorem eval_bind_eq_ok {result : β} {final : δ} {after : σ}
    (h : eval respond (x >>= next) record state = ((.ok result, final), after)) :
    ∃ first middle between, eval respond x record state = ((.ok first, middle), between) ∧
      eval respond (next first) middle between = ((.ok result, final), after) := by
  rw [eval_bind] at h
  generalize eval respond x record state = outcome at h ⊢
  obtain ⟨⟨first, middle⟩, between⟩ := outcome
  cases first with
  | error e => cases h
  | ok first => exact ⟨first, middle, between, rfl, h⟩

end Recorded

end Interaction
