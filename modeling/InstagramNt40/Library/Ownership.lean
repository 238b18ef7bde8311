import Mathlib.Algebra.Order.Group.Multiset
import Mathlib.Tactic.Abel

/-!
# Programs that acquire and release resources

A program asks its surroundings for resources (memory blocks, sockets, handles),
which may be refused, and gives them back. To release or use a resource that is not
held is a `fault`: a double release and a use after release are therefore faults. A
judgement relates what a program owns before to what it owns after and leaves every
other resource alone, so that a leak shows up as a resource owned by nobody.
-/
namespace Ownership

/-- A resource: what kind of thing it is, and a number no other one ever gets. -/
structure Name (κ : Type) where
  kind : κ
  id : Nat
  deriving DecidableEq, Repr

/-- The resources held, and the answer to every request still to come. -/
structure World (κ : Type) where
  live : Multiset (Name κ)
  next : Nat
  answers : Nat → Bool
  fresh : ∀ n ∈ live, n.id < next
  nodup : live.Nodup

/-- A program returns a value, and tells whether a request of its was refused; or it
does something undefined, or exhausts its fuel. -/
inductive Outcome (κ α : Type) where
  | ok (value : α) (w : World κ) (refused : Bool)
  | fault
  | timeout

abbrev Prog (κ α : Type) : Type := World κ → Outcome κ α

variable {κ : Type} {α β : Type}

def Prog.bind (m : Prog κ α) (k : α → Prog κ β) : Prog κ β := fun w =>
  match m w with
  | .ok a w' r =>
    match k a w' with
    | .ok b w'' r' => .ok b w'' (r || r')
    | .fault => .fault
    | .timeout => .timeout
  | .fault => .fault
  | .timeout => .timeout

instance : Monad (Prog κ) where
  pure a := fun w => .ok a w false
  bind := Prog.bind

theorem Prog.pure_bind (a : α) (k : α → Prog κ β) : pure a >>= k = k a := by
  funext w
  simp only [Bind.bind, Prog.bind, Pure.pure, Bool.false_or]
  cases k a w <;> rfl

theorem Prog.bind_assoc {γ : Type} (m : Prog κ α) (k : α → Prog κ β) (l : β → Prog κ γ) :
    (m >>= k) >>= l = m >>= fun a => k a >>= l := by
  funext w
  simp only [Bind.bind, Prog.bind]
  cases m w with
  | ok a w' r =>
    simp only
    cases k a w' with
    | ok b w'' r' =>
      simp only
      cases l b w'' <;> simp only [Bool.or_assoc]
    | fault => rfl
    | timeout => rfl
  | fault => rfl
  | timeout => rfl

/-! ### Primitives -/

def fault : Prog κ α := fun _ => .fault

def timeout : Prog κ α := fun _ => .timeout

/-- The name the next resource gets. -/
def World.name (w : World κ) (k : κ) : Name κ := ⟨k, w.next⟩

/-- The surroundings have answered one more request. -/
def World.answered (w : World κ) : World κ where
  live := w.live
  next := w.next + 1
  answers := w.answers
  fresh n member := Nat.lt_succ_of_lt (w.fresh n member)
  nodup := w.nodup

theorem World.name_not_mem (w : World κ) (k : κ) : w.name k ∉ w.live :=
  fun member => Nat.lt_irrefl _ (w.fresh _ member)

def World.granted (w : World κ) (k : κ) : World κ where
  live := w.name k ::ₘ w.live
  next := w.next + 1
  answers := w.answers
  fresh n member := by
    rcases Multiset.mem_cons.mp member with rfl | old
    · exact Nat.lt_succ_self w.next
    · exact Nat.lt_succ_of_lt (w.fresh n old)
  nodup := Multiset.nodup_cons.mpr ⟨w.name_not_mem k, w.nodup⟩

/-- A request that is never refused. -/
def init (k : κ) : Prog κ (Name κ) := fun w => .ok (w.name k) (w.granted k) false

/-- A request that may be refused. -/
def acquire (k : κ) : Prog κ (Option (Name κ)) := fun w =>
  if w.answers w.next then .ok (some (w.name k)) (w.granted k) false
  else .ok none w.answered true

variable [DecidableEq κ]

/-- Something is done with a resource, which has to be held. -/
def touch (n : Name κ) : Prog κ Unit := fun w =>
  if n ∈ w.live then .ok () w false else .fault

def World.without (w : World κ) (n : Name κ) : World κ where
  live := w.live.erase n
  next := w.next
  answers := w.answers
  fresh m member := w.fresh m (Multiset.mem_of_mem_erase member)
  nodup := w.nodup.erase n

def release (n : Name κ) : Prog κ Unit := fun w =>
  if n ∈ w.live then .ok () (w.without n) false else .fault

/-- Release what may be a null pointer. -/
def releaseOption (n : Option (Name κ)) : Prog κ Unit :=
  match n with
  | none => pure ()
  | some n => release n

/-- Replace a resource by a larger one: a refusal leaves the old one held. -/
def resize (k : κ) (n : Option (Name κ)) : Prog κ (Option (Name κ)) :=
  match n with
  | none => acquire k
  | some n => do
    touch n
    match ← acquire k with
    | none => pure none
    | some m => do
      release n
      pure (some m)

/-! ### The judgement -/

/-- Run where `pre` is owned, `m` returns some `a` with `Q` of whether a request of
its was refused; `own a` is then owned in place of `pre`, and what else was held is
held as before. -/
def Triple (pre : Multiset (Name κ)) (m : Prog κ α) (own : α → Multiset (Name κ))
    (Q : Bool → α → Prop) : Prop :=
  ∀ (w : World κ) others, w.live = pre + others →
    ∃ a w' r, m w = .ok a w' r ∧ w'.live = own a + others ∧ Q r a

section rules

omit [DecidableEq κ]

variable {pre F : Multiset (Name κ)} {m : Prog κ α} {k : α → Prog κ β}
  {own : α → Multiset (Name κ)} {own' : β → Multiset (Name κ)}
  {Q Q' : Bool → α → Prop} {R : Bool → β → Prop}

/-- The judgement without a frame: what a whole program does to the world. -/
theorem Triple.run (spec : Triple 0 m own Q) (w : World κ) :
    ∃ a w' r, m w = .ok a w' r ∧ w'.live = own a + w.live ∧ Q r a :=
  spec w w.live (by rw [zero_add])

theorem Triple.pure {a : α} (owned : pre = own a) (holds : Q false a) :
    Triple pre (pure a : Prog κ α) own Q :=
  fun w _ live => ⟨a, w, false, rfl, owned ▸ live, holds⟩

/-- What `m` does not own stays as it is. -/
theorem Triple.framed (spec : Triple pre m own Q) (F : Multiset (Name κ)) :
    Triple (pre + F) m (fun a => own a + F) Q := by
  intro w others live
  rw [add_assoc] at live
  obtain ⟨a, w', r, runs, live', holds⟩ := spec w (F + others) live
  exact ⟨a, w', r, runs, by rw [live', add_assoc], holds⟩

theorem Triple.bind (first : Triple pre m own Q)
    (second : ∀ a r, Q r a → Triple (own a) (k a) own' fun r' => R (r || r')) :
    Triple pre (m >>= k) own' R := by
  intro w others live
  obtain ⟨a, w', r, runs, live', holds⟩ := first w others live
  obtain ⟨b, w'', r', runs', live'', holds'⟩ := second a r holds w' others live'
  refine ⟨b, w'', r || r', ?_, live'', holds'⟩
  simp only [Bind.bind, Prog.bind, runs, runs']

/-- Call `m` with the part `pre` of what is owned, and go on with what it returns. -/
theorem Triple.call {all : Multiset (Name κ)} (spec : Triple pre m own Q)
    (part : all = pre + F)
    (next : ∀ a r, Q r a → Triple (own a + F) (k a) own' fun r' => R (r || r')) :
    Triple all (m >>= k) own' R := by
  rw [part]
  exact (spec.framed F).bind next

/-- Weaken the conclusion, and own the same resources under another description. -/
theorem Triple.mono {own₂ : α → Multiset (Name κ)} {pre₂ : Multiset (Name κ)}
    (spec : Triple pre m own Q) (before : pre₂ = pre)
    (after : ∀ a r, Q r a → own a = own₂ a ∧ Q' r a) : Triple pre₂ m own₂ Q' := by
  intro w others live
  obtain ⟨a, w', r, runs, live', holds⟩ := spec w others (before ▸ live)
  obtain ⟨same, holds'⟩ := after a r holds
  exact ⟨a, w', r, runs, same ▸ live', holds'⟩

end rules

section primitives

variable {pre F : Multiset (Name κ)} {k : κ}

/-- What an optional resource amounts to. -/
def owned : Option (Name κ) → Multiset (Name κ)
  | none => 0
  | some n => {n}

omit [DecidableEq κ] in
@[simp] theorem owned_none : owned (none : Option (Name κ)) = 0 := rfl

omit [DecidableEq κ] in
@[simp] theorem owned_some (n : Name κ) : owned (some n) = {n} := rfl

omit [DecidableEq κ] in
theorem Triple.init : Triple 0 (init k) (fun n => {n}) fun r _ => r = false := by
  intro w others live
  refine ⟨w.name k, w.granted k, false, rfl, ?_, rfl⟩
  rw [zero_add] at live
  simp only [World.granted, live, Multiset.singleton_add]

omit [DecidableEq κ] in
theorem Triple.acquire : Triple 0 (acquire k) owned fun r o => r = o.isNone := by
  intro w others live
  rw [zero_add] at live
  by_cases answer : w.answers w.next = true
  · refine ⟨some (w.name k), w.granted k, false, ?_, ?_, rfl⟩
    · simp only [Ownership.acquire, if_pos answer]
    · simp only [World.granted, live, owned_some, Multiset.singleton_add]
  · refine ⟨none, w.answered, true, ?_, ?_, rfl⟩
    · simp only [Ownership.acquire, if_neg answer]
    · simp only [World.answered, live, owned_none, zero_add]

theorem Triple.touch (n : Name κ) : Triple {n} (touch n) (fun _ => {n}) fun r _ => r = false := by
  intro w others live
  refine ⟨(), w, false, ?_, live, rfl⟩
  have held : n ∈ w.live := by simp [live]
  simp only [Ownership.touch, if_pos held]

theorem Triple.release (n : Name κ) : Triple {n} (release n) (fun _ => 0) fun r _ => r = false := by
  intro w others live
  refine ⟨(), w.without n, false, ?_, ?_, rfl⟩
  · have held : n ∈ w.live := by simp [live]
    simp only [Ownership.release, if_pos held]
  · simp only [World.without, live, Multiset.singleton_add, Multiset.erase_cons_head, zero_add]

theorem Triple.releaseOption (n : Option (Name κ)) :
    Triple (owned n) (releaseOption n) (fun _ => 0) fun r _ => r = false := by
  cases n with
  | none => exact .pure rfl rfl
  | some n => exact .release n

/-- After a resize either the new resource is owned, or still the old one. -/
theorem Triple.resize (n : Option (Name κ)) :
    Triple (owned n) (resize k n) (fun o => if o.isSome then owned o else owned n)
      fun r o => r = o.isNone := by
  cases n with
  | none => exact Triple.acquire.mono rfl fun o r refused => ⟨by cases o <;> rfl, refused⟩
  | some n =>
    refine (Triple.touch n).bind fun _ r calm => ?_
    subst calm
    refine Triple.acquire.call (F := {n}) (by simp) fun o r refused => ?_
    subst refused
    cases o with
    | none => exact .pure (by simp) rfl
    | some m =>
      refine (Triple.release n).call (F := {m}) (by simp [add_comm]) fun _ r calm => ?_
      subst calm
      exact .pure (by simp) rfl

/-- A look at what is owned. -/
theorem Triple.borrow {n : Name κ} (part : n ∈ pre) :
    Triple pre (Ownership.touch n) (fun _ => pre) fun r _ => r = false := by
  obtain ⟨others, rfl⟩ := Multiset.exists_cons_of_mem part
  exact ((Triple.touch n).framed others).mono (Multiset.singleton_add n others).symm
    fun _ _ calm => ⟨Multiset.singleton_add n others, calm⟩

omit [DecidableEq κ] in
/-- Call what is never refused anything. -/
theorem Triple.quiet {all : Multiset (Name κ)} {m : Prog κ α} {k : α → Prog κ β}
    {own : α → Multiset (Name κ)} {own' : β → Multiset (Name κ)} {R : Bool → β → Prop}
    (spec : Triple pre m own fun r _ => r = false) (part : all = pre + F)
    (next : ∀ a, Triple (own a + F) (k a) own' R) : Triple all (m >>= k) own' R := by
  refine spec.call part fun a r calm => ?_
  subst calm
  exact next a

/-- The program only looks at what is owned, and returns something with `P`. -/
def Looks (pre : Multiset (Name κ)) (m : Prog κ α) (P : α → Prop) : Prop :=
  Triple pre m (fun _ => pre) fun r a => r = false ∧ P a

omit [DecidableEq κ] in
theorem Looks.pure {a : α} {P : α → Prop} (holds : P a) :
    Looks pre (Pure.pure a : Prog κ α) P := Triple.pure rfl ⟨rfl, holds⟩

theorem Looks.touch {n : Name κ} {k : Unit → Prog κ α} {P : α → Prop} (part : n ∈ pre)
    (next : Looks pre (k ()) P) : Looks pre (Ownership.touch n >>= k) P :=
  (Triple.borrow part).quiet (F := 0) (add_zero pre).symm fun _ =>
    next.mono (add_zero pre) fun _ _ holds => ⟨rfl, holds⟩

omit [DecidableEq κ] in
/-- Call what only looks at what is owned. -/
theorem Triple.look {all : Multiset (Name κ)} {m : Prog κ α} {k : α → Prog κ β}
    {own' : β → Multiset (Name κ)} {P : α → Prop} {R : Bool → β → Prop}
    (spec : Looks pre m P) (part : all = pre + F)
    (next : ∀ a, P a → Triple all (k a) own' R) : Triple all (m >>= k) own' R := by
  refine Triple.call spec part fun a r calm => ?_
  obtain ⟨rfl, holds⟩ := calm
  exact part ▸ next a holds

omit [DecidableEq κ] in
theorem Looks.bind {m : Prog κ α} {k : α → Prog κ β} {P : α → Prop} {P' : β → Prop}
    (first : Looks pre m P) (next : ∀ a, P a → Looks pre (k a) P') : Looks pre (m >>= k) P' :=
  Triple.look first (add_zero pre).symm fun a holds => next a holds

omit [DecidableEq κ] in
theorem Looks.mono {m : Prog κ α} {P P' : α → Prop} (looks : Looks pre m P)
    (weaker : ∀ a, P a → P' a) : Looks pre m P' :=
  Triple.mono looks rfl fun a _ holds => ⟨rfl, holds.1, weaker a holds.2⟩

omit [DecidableEq κ] in
/-- A request and the test of its answer. -/
theorem Triple.request {k : Option (Name κ) → Prog κ β} {kind : κ}
    {own' : β → Multiset (Name κ)} {R : Bool → β → Prop}
    (granted : ∀ n, Triple ({n} + pre) (k (some n)) own' R)
    (refused : Triple pre (k none) own' fun _ => R true) :
    Triple pre (Ownership.acquire kind >>= k) own' R := by
  refine Triple.acquire.call (F := pre) (zero_add pre).symm fun o r answer => ?_
  subst answer
  cases o with
  | none => exact refused.mono (zero_add pre) fun _ _ holds => ⟨rfl, holds⟩
  | some n => exact granted n

end primitives

section loops

omit [DecidableEq κ]

/-- A loop over a list: a round keeps the invariant, said of what is still to do. -/
theorem Triple.foldlM (own : β → Multiset (Name κ)) {round : β → α → Prog κ β}
    (inv : Bool → β → List α → Prop)
    (step : ∀ r b a rest, inv r b (a :: rest) →
      Triple (own b) (round b a) own fun r' b' => inv (r || r') b' rest) :
    ∀ (todo : List α) (b : β) (r : Bool), inv r b todo →
      Triple (own b) (todo.foldlM round b) own fun r' b' => inv (r || r') b' []
  | [], b, r, holds => by
    rw [List.foldlM_nil]
    exact .pure rfl (by rwa [Bool.or_false])
  | a :: todo, b, r, holds => by
    rw [List.foldlM_cons]
    refine (step r b a todo holds).bind fun b' r' holds' => ?_
    exact (Triple.foldlM own inv step todo b' (r || r') holds').mono rfl
      fun _ r'' done => ⟨rfl, by rwa [Bool.or_assoc] at done⟩

end loops

end Ownership
