import GoUblksrv.Lib.Machine

/-!
Programs that ask queries and go on with the answers. The same program is evaluated on a
function that gives the answers, or executed in an environment that has a state of its own.
-/

universe u

inductive Program (Q A α : Type u)
  | done (a : α)
  | ask (q : Q) (k : A → Program Q A α)

namespace Program

variable {Q A α β : Type u} {σ ε : Type*}

def bind (p : Program Q A α) (f : α → Program Q A β) : Program Q A β :=
  match p with
  | done a => f a
  | ask q k => ask q fun x => (k x).bind f

instance : Monad (Program Q A) where
  pure := done
  bind := bind

def eval (ans : Q → A) : Program Q A α → α
  | done a => a
  | ask q k => (k (ans q)).eval ans

@[simp] theorem eval_pure (ans : Q → A) (a : α) : (pure a : Program Q A α).eval ans = a := rfl

@[simp] theorem eval_done (ans : Q → A) (a : α) : (done a : Program Q A α).eval ans = a := rfl

@[simp] theorem eval_ask (ans : Q → A) (q : Q) (k : A → Program Q A α) :
    (ask q k).eval ans = (k (ans q)).eval ans := rfl

@[simp] theorem eval_bind (ans : Q → A) (p : Program Q A α) (f : α → Program Q A β) :
    (p >>= f).eval ans = (f (p.eval ans)).eval ans := by
  induction p with
  | done a => rfl
  | ask q k ih => exact ih (ans q)

def trace (ans : Q → A) : Program Q A α → List Q
  | done _ => []
  | ask q k => q :: (k (ans q)).trace ans

@[simp] theorem trace_pure (ans : Q → A) (a : α) : (pure a : Program Q A α).trace ans = [] := rfl

@[simp] theorem trace_done (ans : Q → A) (a : α) : (done a : Program Q A α).trace ans = [] := rfl

@[simp] theorem trace_ask (ans : Q → A) (q : Q) (k : A → Program Q A α) :
    (ask q k).trace ans = q :: (k (ans q)).trace ans := rfl

@[simp] theorem trace_bind (ans : Q → A) (p : Program Q A α) (f : α → Program Q A β) :
    (p >>= f).trace ans = p.trace ans ++ (f (p.eval ans)).trace ans := by
  induction p with
  | done a => rfl
  | ask q k ih => exact congrArg (q :: ·) (ih (ans q))

theorem trace_bind_length {ans : Q → A} {p : Program Q A α} {f : α → Program Q A β} {m n : ℕ}
    (hp : (p.trace ans).length ≤ m) (hf : ∀ a, ((f a).trace ans).length ≤ n) :
    ((p >>= f).trace ans).length ≤ m + n := by
  rw [trace_bind, List.length_append]
  exact Nat.add_le_add hp (hf _)

/-- The same program in an environment of more queries. -/
def embed {Q' A' : Type u} (f : Q → Q') (g : A' → A) : Program Q A α → Program Q' A' α
  | done a => done a
  | ask q k => ask (f q) fun x => (k (g x)).embed f g

@[simp] theorem eval_embed {Q' A' : Type u} (f : Q → Q') (g : A' → A) (ans : Q' → A') (p : Program Q A α) :
    (p.embed f g).eval ans = p.eval fun q => g (ans (f q)) := by
  induction p with
  | done a => rfl
  | ask q k ih => exact ih (g (ans (f q)))

@[simp] theorem trace_embed {Q' A' : Type u} (f : Q → Q') (g : A' → A) (ans : Q' → A') (p : Program Q A α) :
    (p.embed f g).trace ans = (p.trace fun q => g (ans (f q))).map f := by
  induction p with
  | done a => rfl
  | ask q k ih => exact congrArg (f q :: ·) (ih (g (ans (f q))))

/-- Every query satisfies `P`, and the result `φ`, as long as the answers satisfy `R`. -/
def Ensures (P : Q → Prop) (R : Q → A → Prop) (φ : α → Prop) : Program Q A α → Prop
  | done a => φ a
  | ask q k => P q ∧ ∀ x, R q x → (k x).Ensures P R φ

section

variable {P : Q → Prop} {R : Q → A → Prop} {φ φ' : α → Prop} {ψ : β → Prop} {p : Program Q A α}
  {g : α → Program Q A β}

theorem ensures_pure {a : α} (h : φ a) : (pure a : Program Q A α).Ensures P R φ := h

theorem Ensures.mono (h : p.Ensures P R φ) (himp : ∀ a, φ a → φ' a) : p.Ensures P R φ' := by
  induction p with
  | done a => exact himp a h
  | ask q k ih => exact ⟨h.1, fun x hx => ih x (h.2 x hx)⟩

theorem Ensures.bind (h : p.Ensures P R φ) (hg : ∀ a, φ a → (g a).Ensures P R ψ) : (p >>= g).Ensures P R ψ := by
  induction p with
  | done a => exact hg a h
  | ask q k ih => exact ⟨h.1, fun x hx => ih x (h.2 x hx)⟩

theorem Ensures.embed {Q' A' : Type u} {f : Q → Q'} {g : A' → A} {P' : Q' → Prop} {R' : Q' → A' → Prop}
    (h : p.Ensures P R φ) (hP : ∀ q, P q → P' (f q)) (hR : ∀ q x, R' (f q) x → R q (g x)) :
    (p.embed f g).Ensures P' R' φ := by
  induction p with
  | done a => exact h
  | ask q k ih => exact ⟨hP q h.1, fun x hx => ih _ (h.2 _ (hR q x hx))⟩

end

def isDone : Program Q A α → Bool
  | done _ => true
  | ask _ _ => false

/-- The environment answers a query by a step of its own; each step uses one element of the list. -/
def exec (f : σ → Q → ε → Option (σ × A)) : Program Q A α → σ → List ε → Option (σ × α × List ε)
  | done a, s, es => some (s, a, es)
  | ask _ _, _, [] => none
  | ask q k, s, e :: es => (f s q e).bind fun r => (k r.2).exec f r.1 es

variable {f : σ → Q → ε → Option (σ × A)} {s s' : σ} {es es' : List ε}

/-- What a program does in its environment is a run of the machine of the environment. -/
theorem exec_reach {M : Machine σ (Q × ε)} {C : σ → Q × ε → Prop} {p : Program Q A α} {a : α}
    (hM : ∀ s q e, M.step s (q, e) = (f s q e).map Prod.fst) (hs : M.Reach C s) (hc : ∀ t b, C t b)
    (h : p.exec f s es = some (s', a, es')) : M.Reach C s' := by
  induction p generalizing s es with
  | done b =>
    cases h
    exact hs
  | ask q k ih =>
    cases es with
    | nil => cases h
    | cons e es =>
      obtain ⟨r, hr, h⟩ := Option.bind_eq_some_iff.mp h
      refine ih r.2 (.step hs (hc s (q, e)) ?_) h
      rw [hM, hr]
      rfl

/-- The environment changes between two queries: each element answers one of them. -/
def Meets (answer : ε → Q → A) : Program Q A α → List ε → α → Prop
  | done a, es, b => es = [] ∧ a = b
  | ask _ _, [], _ => False
  | ask q k, e :: es, b => (k (answer e q)).Meets answer es b

section

variable {answer : ε → Q → A} {ms : List ε} {a : α} {b : β} {p : Program Q A α} {g : α → Program Q A β}

@[simp] theorem meets_pure {c : α} : (pure a : Program Q A α).Meets answer ms c ↔ ms = [] ∧ a = c := Iff.rfl

theorem meets_bind : (p >>= g).Meets answer ms b ↔
    ∃ ms₁ ms₂ a, ms = ms₁ ++ ms₂ ∧ p.Meets answer ms₁ a ∧ (g a).Meets answer ms₂ b := by
  constructor
  · intro h
    induction p generalizing ms with
    | done a => exact ⟨[], ms, a, rfl, ⟨rfl, rfl⟩, h⟩
    | ask q k ih =>
      cases ms with
      | nil => cases h
      | cons e ms =>
        obtain ⟨ms₁, ms₂, a, rfl, ha, hb⟩ := ih (answer e q) h
        exact ⟨e :: ms₁, ms₂, a, rfl, ha, hb⟩
  · rintro ⟨ms₁, ms₂, a, rfl, ha, hb⟩
    induction p generalizing ms₁ with
    | done c =>
      obtain ⟨rfl, rfl⟩ := ha
      exact hb
    | ask q k ih =>
      cases ms₁ with
      | nil => cases ha
      | cons e ms₁ => exact ih (answer e q) ms₁ ha

theorem meets_ask {q : Q} {k : A → Program Q A α} :
    (ask q k).Meets answer ms a ↔ ∃ e es, ms = e :: es ∧ (k (answer e q)).Meets answer es a := by
  cases ms with
  | nil => exact ⟨fun h => h.elim, fun ⟨_, _, he, _⟩ => by cases he⟩
  | cons e es =>
    constructor
    · intro h
      exact ⟨e, es, rfl, h⟩
    · rintro ⟨_, _, he, h⟩
      cases he
      exact h

theorem exists_meets_eval (answer : ε → Q → A) (p : Program Q A α) (e : ε) :
    ∃ n, p.Meets answer (List.replicate n e) (p.eval (answer e)) := by
  induction p with
  | done a => exact ⟨0, rfl, rfl⟩
  | ask q k ih =>
    obtain ⟨n, hn⟩ := ih (answer e q)
    exact ⟨n + 1, hn⟩

end

end Program
