import Sarca.Lib.Run

/-!
# Scripts of statements

A script works on a store through statements that may fail: it ends with an answer, reads the store, or
runs a statement, and a statement that fails ends it and leaves the store as it was. `execute` runs a
script, `trace` lists the statements that took effect on the way, and `execute_store` says that the
store after a script is that after a run over its trace. What holds along the statements of a sequence of
calls holds between the calls (`always_calls`). `Only` is the rule for what every statement of a script
meets whatever it reads, and `Allows` for what each has to meet where it runs: both are proved along the
script, and `Only.traces` and `allOk_traces` take them to sequences of calls.
-/

namespace Sarca.Lib

/-- A script over stores `σ` with statements `ο` and errors `ε`. -/
inductive Script (σ ο ε α : Type) where
  | done (answer : Except ε α)
  | query (rest : σ → Script σ ο ε α)
  | statement (op : ο) (rest : Script σ ο ε α)

namespace Script

variable {σ ο ε α β : Type}

def bind (f : α → Script σ ο ε β) : Script σ ο ε α → Script σ ο ε β
  | done (.ok a) => f a
  | done (.error e) => done (.error e)
  | query rest => query fun s => bind f (rest s)
  | statement op rest => statement op (bind f rest)

instance : Monad (Script σ ο ε) where
  pure := fun a => done (.ok a)
  bind := fun p f => bind f p

/-- The store. -/
def store : Script σ ο ε σ :=
  query fun s => done (.ok s)

/-- One statement. -/
def exec (op : ο) : Script σ ο ε Unit :=
  statement op (done (.ok ()))

/-- End with an error. -/
def fail (e : ε) : Script σ ο ε α :=
  done (.error e)

/-- End with an answer that may be an error. -/
def ofExcept (answer : Except ε α) : Script σ ο ε α :=
  done answer

variable (attempt : σ → ο → Except ε σ)

/-- The store a statement leaves: a failed one leaves it as it was. -/
def apply (s : σ) (op : ο) : σ :=
  match attempt s op with
  | .ok s' => s'
  | .error _ => s

/-- The answer of a script, and the store it leaves. -/
def execute : Script σ ο ε α → σ → Except ε α × σ
  | done answer, s => (answer, s)
  | query rest, s => execute (rest s) s
  | statement op rest, s =>
    match attempt s op with
    | .ok s' => execute rest s'
    | .error e => (.error e, s)

/-- The statements that take effect, in their order. -/
def trace : Script σ ο ε α → σ → List ο
  | done _, _ => []
  | query rest, s => trace (rest s) s
  | statement op rest, s =>
    match attempt s op with
    | .ok s' => op :: trace rest s'
    | .error _ => []

variable {attempt}

/-- The store after a script is that after its trace. -/
lemma execute_store (p : Script σ ο ε α) (s : σ) :
    (p.execute attempt s).2 = run (apply attempt) s (p.trace attempt s) := by
  induction p generalizing s with
  | done answer => rfl
  | query rest ih => exact ih s s
  | statement op rest ih =>
    unfold execute trace
    cases hop : attempt s op with
    | ok s' =>
      have happly : apply attempt s op = s' := by
        rw [apply, hop]
      show (rest.execute attempt s').2 = run (apply attempt) (apply attempt s op) _
      rw [happly]
      exact ih s'
    | error e => rfl

/-- A script behind another one. -/
lemma execute_bind (p : Script σ ο ε α) (f : α → Script σ ο ε β) (s : σ) :
    (p >>= f).execute attempt s =
      match p.execute attempt s with
      | (.ok a, s') => (f a).execute attempt s'
      | (.error e, s') => (.error e, s') := by
  show (bind f p).execute attempt s = _
  induction p generalizing s with
  | done answer => cases answer <;> rfl
  | query rest ih => exact ih s s
  | statement op rest ih =>
    simp only [bind, execute]
    cases attempt s op with
    | ok s' => exact ih s'
    | error e => rfl

/-- A script of one statement. -/
lemma execute_exec (op : ο) (s : σ) :
    (exec op : Script σ ο ε Unit).execute attempt s =
      match attempt s op with
      | .ok s' => (.ok (), s')
      | .error e => (.error e, s) := by
  rw [exec, execute]
  rfl

variable {γ : Type}

variable (attempt) in
/-- The store after a call of a service. -/
def call (script : γ → Script σ ο ε α) (s : σ) (c : γ) : σ :=
  ((script c).execute attempt s).2

variable (attempt) in
/-- The statements that take effect in a sequence of calls. -/
def traces (script : γ → Script σ ο ε α) : σ → List γ → List ο
  | _, [] => []
  | s, c :: cs => (script c).trace attempt s ++ traces script (call attempt script s c) cs

/-- What holds before and after every statement of the calls holds between the calls. -/
lemma always_calls {script : γ → Script σ ο ε α} {P : σ → Prop} {cs : List γ} {s : σ}
    (h : Always (apply attempt) P s (traces attempt script s cs)) :
    Always (call attempt script) P s cs := by
  induction cs generalizing s with
  | nil => exact h
  | cons c cs ih =>
    obtain ⟨hcall, hrest⟩ := always_append.mp h
    rw [← execute_store] at hrest
    exact ⟨always_iff_prefixes.mp hcall [] List.nil_prefix, ih hrest⟩

/-! ## The statements of a script -/

/-- Whatever the script reads, each statement it runs meets `ok`. -/
def Only (ok : ο → Prop) : Script σ ο ε α → Prop
  | done _ => True
  | query rest => ∀ s, Only ok (rest s)
  | statement op rest => ok op ∧ Only ok rest

section Only

variable {ok : ο → Prop} {p : Script σ ο ε α} {f : α → Script σ ο ε β}

lemma Only.bind (hp : Only ok p) (hf : ∀ a, Only ok (f a)) : Only ok (p >>= f) := by
  show Only ok (Script.bind f p)
  induction p with
  | done answer =>
    cases answer with
    | ok a => exact hf a
    | error e => trivial
  | query rest ih => exact fun s => ih s (hp s)
  | statement op rest ih => exact ⟨hp.1, ih hp.2⟩

lemma Only.store {f : σ → Script σ ο ε β} (hf : ∀ s, Only ok (f s)) : Only ok (Script.store >>= f) :=
  hf

lemma Only.refuse {c : Prop} [Decidable c] {e : ε} {p : Script σ ο ε β} (hp : Only ok p) :
    Only ok (if c then Script.fail e >>= f else p) := by
  split
  · trivial
  · exact hp

lemma Only.trace (hp : Only ok p) (s : σ) : ∀ op ∈ p.trace attempt s, ok op := by
  induction p generalizing s with
  | done answer => exact List.forall_mem_nil _
  | query rest ih => exact ih s (hp s) s
  | statement op rest ih =>
    unfold Script.trace
    split
    · exact List.forall_mem_cons.mpr ⟨hp.1, ih hp.2 _⟩
    · exact List.forall_mem_nil _

/-- So does each statement of a sequence of calls. -/
lemma Only.traces {script : γ → Script σ ο ε α} {cs : List γ} (h : ∀ c ∈ cs, Only ok (script c)) (s : σ) :
    ∀ op ∈ traces attempt script s cs, ok op := by
  induction cs generalizing s with
  | nil => exact List.forall_mem_nil _
  | cons c cs ih =>
    obtain ⟨hc, hcs⟩ := List.forall_mem_cons.mp h
    exact List.forall_mem_append.mpr ⟨hc.trace s, ih hcs _⟩

end Only

/-! ## Guarded scripts -/

section Guarded

variable {ok : σ → ο → Prop} {I : σ → Prop}

variable (attempt) in
/-- From a store, every statement that takes effect meets `ok`, where `I` may be assumed after each of
    them, and an answer meets `Q`. -/
def Allows (ok : σ → ο → Prop) (I : σ → Prop) : Script σ ο ε α → σ → (α → σ → Prop) → Prop
  | done (.ok a), s, Q => Q a s
  | done (.error _), _, _ => True
  | query rest, s, Q => Allows ok I (rest s) s Q
  | statement op rest, s, Q =>
    ∀ s', attempt s op = .ok s' → ok s op ∧ (I s' → Allows ok I rest s' Q)

/-- A script behind another one. -/
lemma Allows.bind {p : Script σ ο ε α} {f : α → Script σ ο ε β} {s : σ} {Q : β → σ → Prop}
    (h : Allows attempt ok I p s fun a s' => Allows attempt ok I (f a) s' Q) :
    Allows attempt ok I (p >>= f) s Q := by
  show Allows attempt ok I (Script.bind f p) s Q
  induction p generalizing s with
  | done answer =>
    cases answer with
    | ok a => exact h
    | error e => trivial
  | query rest ih => exact ih s h
  | statement op rest ih =>
    intro s' hop
    obtain ⟨hok, hrest⟩ := h s' hop
    exact ⟨hok, fun hI => ih (hrest hI)⟩

lemma Allows.fail {e : ε} {s : σ} {Q : α → σ → Prop} : Allows attempt ok I (Script.fail e) s Q :=
  trivial

lemma Allows.pure {a : α} {s : σ} {Q : α → σ → Prop} (h : Q a s) :
    Allows attempt ok I (Pure.pure a) s Q :=
  h

/-- What a script reads is the store it finds. -/
lemma Allows.store {f : σ → Script σ ο ε β} {s : σ} {Q : β → σ → Prop}
    (h : Allows attempt ok I (f s) s Q) : Allows attempt ok I (Script.store >>= f) s Q :=
  h

lemma Allows.exec {op : ο} {s : σ} {Q : Unit → σ → Prop}
    (h : ∀ s', attempt s op = .ok s' → ok s op ∧ (I s' → Q () s')) :
    Allows attempt ok I (Script.exec op) s Q :=
  h

lemma Allows.ofExcept {answer : Except ε α} {s : σ} {Q : α → σ → Prop}
    (h : ∀ a, answer = .ok a → Q a s) : Allows attempt ok I (Script.ofExcept answer) s Q := by
  cases answer with
  | ok a => exact h a rfl
  | error e => trivial

/-- A refusal in front of a script. -/
lemma Allows.refuse {c : Prop} [Decidable c] {e : ε} {f : α → Script σ ο ε β} {p : Script σ ο ε β}
    {s : σ} {Q : β → σ → Prop} (h : ¬ c → Allows attempt ok I p s Q) :
    Allows attempt ok I (if c then Script.fail e >>= f else p) s Q := by
  by_cases hc : c
  · rw [if_pos hc]
    trivial
  · rw [if_neg hc]
    exact h hc

/-- Statements that meet `ok` keep the invariant, and so every statement of the script meets `ok`. -/
lemma Allows.trace {p : Script σ ο ε α} {s : σ} {Q : α → σ → Prop}
    (hI : ∀ s op s', I s → ok s op → attempt s op = .ok s' → I s') (hs : I s)
    (h : Allows attempt ok I p s Q) : AllOk (apply attempt) ok s (p.trace attempt s) := by
  induction p generalizing s with
  | done answer => trivial
  | query rest ih => exact ih s hs h
  | statement op rest ih =>
    unfold Script.trace
    cases hop : attempt s op with
    | error e => trivial
    | ok s' =>
      obtain ⟨hok, hrest⟩ := h s' hop
      have happly : apply attempt s op = s' := by
        rw [apply, hop]
      have hs' := hI s op s' hs hok hop
      refine ⟨hok, ?_⟩
      rw [happly]
      exact ih hs' (hrest hs')

/-- Calls that are allowed under the invariant, each by a condition on the store it finds, run statements
    that meet `ok`. -/
lemma allOk_traces {script : γ → Script σ ο ε α} {fits : σ → γ → Prop}
    (hI : ∀ s op s', I s → ok s op → attempt s op = .ok s' → I s')
    (hcall : ∀ s c, I s → fits s c → Allows attempt ok I (script c) s fun _ _ => True)
    {s : σ} {cs : List γ} (hs : I s) (h : AllOk (call attempt script) fits s cs) :
    AllOk (apply attempt) ok s (traces attempt script s cs) := by
  induction cs generalizing s with
  | nil => trivial
  | cons c cs ih =>
    obtain ⟨hc, hrest⟩ := h
    have htrace := (hcall s c hs hc).trace hI hs
    have hend : I (run (apply attempt) s ((script c).trace attempt s)) := by
      refine (always_of_allOk (P := I) ?_ hs htrace).last
      intro s op hs hok
      cases hop : attempt s op with
      | error e =>
        rw [apply, hop]
        exact hs
      | ok s' =>
        rw [apply, hop]
        exact hI s op s' hs hok hop
    rw [← execute_store] at hend
    refine allOk_append.mpr ⟨htrace, ?_⟩
    rw [← execute_store]
    exact ih hend hrest

end Guarded

end Script

end Sarca.Lib
