/-!
# Steps that end well

Loading, inference and rendering are made of steps that may fail and that leave a state in any case.
`Yields action before result after` says that a step started in one state ends well, with a result
and another state, `Fails action before fault after` that it ends with a fault. There is one
equivalence for each way to put steps together, so that a step is taken apart without a look at the
monad that it runs in.
-/

set_option autoImplicit false

namespace RobotBlocks

open List

instance Except.decidableEq {ε α : Type} [DecidableEq ε] [DecidableEq α] :
    DecidableEq (Except ε α)
  | .ok a, .ok b => decidable_of_iff (a = b) (by rw [Except.ok.injEq])
  | .error a, .error b => decidable_of_iff (a = b) (by rw [Except.error.injEq])
  | .ok _, .error _ => .isFalse nofun
  | .error _, .ok _ => .isFalse nofun

section

variable {ε σ α β : Type}

/-- A step ends well, with a result and a state. -/
def Yields (action : ExceptT ε (StateM σ) α) (before : σ) (result : α) (after : σ) : Prop :=
  @Eq (Except ε α × σ) (action.run.run before) (.ok result, after)

/-- A step ends with a fault and a state. -/
def Fails (action : ExceptT ε (StateM σ) α) (before : σ) (fault : ε) (after : σ) : Prop :=
  @Eq (Except ε α × σ) (action.run.run before) (.error fault, after)

variable {action x : ExceptT ε (StateM σ) α} {f : α → ExceptT ε (StateM σ) β}
variable {before s t t' : σ} {result a : α} {b : β} {fault : ε}

/-- A step whose answer is a result ends well, in the state that it leaves. -/
theorem yields_of_fst_run_eq (h : (action.run.run before).1 = .ok result) :
    Yields action before result (action.run.run before).2 := by
  exact Prod.ext h rfl

theorem fails_of_fst_run_eq (h : (action.run.run before).1 = .error fault) :
    Fails action before fault (action.run.run before).2 := by
  exact Prod.ext h rfl

theorem exists_yields (h : (action.run.run before).1.toOption.isSome = true) :
    ∃ result, Yields action before result (action.run.run before).2 := by
  cases hanswer : (action.run.run before).1 with
  | error fault => simp [hanswer, Except.toOption] at h
  | ok result => exact ⟨result, yields_of_fst_run_eq hanswer⟩

theorem yields_or_fails (action : ExceptT ε (StateM σ) α) (before : σ) :
    (∃ result after, Yields action before result after) ∨
      ∃ fault after, Fails action before fault after := by
  unfold Yields Fails
  rcases (action.run.run before : Except ε α × σ) with ⟨answer, after⟩
  cases answer with
  | ok result => exact .inl ⟨result, after, rfl⟩
  | error fault => exact .inr ⟨fault, after, rfl⟩

theorem Yields.not_fails (h : Yields action s a t) : ¬ Fails action s fault t' := by
  intro hfails
  unfold Yields at h
  unfold Fails at hfails
  rw [h] at hfails
  cases hfails

theorem Yields.state_eq {a a' : α} (h : Yields action s a t) (h' : Yields action s a' t') :
    t = t' := by
  unfold Yields at h h'
  rw [h] at h'
  exact congrArg Prod.snd h'

theorem Yields.result_eq {a a' : α} (h : Yields action s a t) (h' : Yields action s a' t') :
    a = a' := by
  unfold Yields at h h'
  rw [h] at h'
  exact Except.ok.inj (congrArg Prod.fst h')

@[simp] theorem yields_pure {a b : α} :
    Yields (pure a : ExceptT ε (StateM σ) α) s b t ↔ a = b ∧ s = t := by
  show ((.ok a, s) : Except ε α × σ) = (.ok b, t) ↔ a = b ∧ s = t
  simp

/-- A step and what comes after it: a fault of the first is the end. -/
theorem run_run_bind (x : ExceptT ε (StateM σ) α) (f : α → ExceptT ε (StateM σ) β) (s : σ) :
    @Eq (Except ε β × σ) ((x >>= f).run.run s)
      (match (x.run.run s : Except ε α × σ) with
        | (.ok a, m) => (f a).run.run m
        | (.error fault, m) => (.error fault, m)) := by
  rw [ExceptT.run_bind, StateT.run_bind]
  rcases (x.run.run s : Except ε α × σ) with ⟨answer, m⟩
  cases answer <;> rfl

/-- Two steps end well if the first does and the second does from there on. -/
@[simp] theorem yields_bind :
    Yields (x >>= f) s b t ↔ ∃ a m, Yields x s a m ∧ Yields (f a) m b t := by
  unfold Yields
  rw [run_run_bind]
  rcases (x.run.run s : Except ε α × σ) with ⟨answer, m⟩
  cases answer with
  | error fault => simp
  | ok a =>
    simp only [Prod.mk.injEq, Except.ok.injEq]
    constructor
    · intro h
      exact ⟨a, m, ⟨rfl, rfl⟩, h⟩
    · rintro ⟨a', m', ⟨rfl, rfl⟩, h⟩
      exact h

theorem yields_bind_pure {f : α → β} :
    Yields (x >>= fun a => pure (f a)) s b t ↔ ∃ a, Yields x s a t ∧ f a = b := by
  simp only [yields_bind, yields_pure]
  constructor
  · rintro ⟨a, m, hx, hab, rfl⟩
    exact ⟨a, hx, hab⟩
  · rintro ⟨a, hx, hab⟩
    exact ⟨a, t, hx, hab, rfl⟩

@[simp] theorem yields_map {f : α → β} :
    Yields (f <$> x) s b t ↔ ∃ a, Yields x s a t ∧ f a = b := by
  rw [map_eq_pure_bind, yields_bind_pure]

@[simp] theorem yields_get {b : σ} :
    Yields (get : ExceptT ε (StateM σ) σ) s b t ↔ s = b ∧ s = t := by
  show ((.ok s, s) : Except ε σ × σ) = (.ok b, t) ↔ s = b ∧ s = t
  simp

@[simp] theorem yields_modify {f : σ → σ} {u : Unit} :
    Yields (modify f : ExceptT ε (StateM σ) Unit) s u t ↔ f s = t := by
  show ((.ok ⟨⟩, f s) : Except ε Unit × σ) = (.ok u, t) ↔ f s = t
  simp

@[simp] theorem yields_modifyGet {f : σ → α × σ} :
    Yields (modifyGet f : ExceptT ε (StateM σ) α) s a t ↔ f s = (a, t) := by
  show ((.ok (f s).1, (f s).2) : Except ε α × σ) = (.ok a, t) ↔ f s = (a, t)
  simp [Prod.ext_iff]

@[simp] theorem yields_throw : ¬ Yields (throw fault : ExceptT ε (StateM σ) α) s a t := by
  show ¬ ((.error fault, s) : Except ε α × σ) = (.ok a, t)
  simp

@[simp] theorem yields_liftM {e : Except ε α} :
    Yields (liftM e : ExceptT ε (StateM σ) α) s a t ↔ e = .ok a ∧ s = t := by
  show ((e, s) : Except ε α × σ) = (.ok a, t) ↔ e = .ok a ∧ s = t
  simp

theorem yields_get_bind {f : σ → ExceptT ε (StateM σ) β} :
    Yields (get >>= f) s b t ↔ Yields (f s) s b t := by
  simp only [yields_bind, yields_get]
  constructor
  · rintro ⟨_, _, ⟨rfl, rfl⟩, h⟩
    exact h
  · exact fun h => ⟨s, s, ⟨rfl, rfl⟩, h⟩

theorem Yields.of_liftM_bind {answer : Except ε α} (h : Yields (liftM answer >>= f) s b t)
    (hanswer : answer = .ok a) : Yields (f a) s b t := by
  subst hanswer
  exact h

theorem yields_mapM_cons {f : α → ExceptT ε (StateM σ) β} {rest : List α} {results : List β} :
    Yields ((a :: rest).mapM f) s results t ↔ ∃ b m others, Yields (f a) s b m ∧
      Yields (rest.mapM f) m others t ∧ b :: others = results := by
  simp only [mapM_cons, yields_bind, yields_pure]
  constructor
  · rintro ⟨b, m, hfirst, others, _, hrest, rfl, rfl⟩
    exact ⟨b, m, others, hfirst, hrest, rfl⟩
  · rintro ⟨b, m, others, hfirst, hrest, rfl⟩
    exact ⟨b, m, hfirst, others, t, hrest, rfl, rfl⟩

@[simp] theorem fails_pure : ¬ Fails (pure a : ExceptT ε (StateM σ) α) s fault t := by
  show ¬ ((.ok a, s) : Except ε α × σ) = (.error fault, t)
  simp

/-- Two steps fail if the first does, or the second from where the first ends. -/
@[simp] theorem fails_bind :
    Fails (x >>= f) s fault t ↔
      Fails x s fault t ∨ ∃ a m, Yields x s a m ∧ Fails (f a) m fault t := by
  unfold Yields Fails
  rw [run_run_bind]
  rcases (x.run.run s : Except ε α × σ) with ⟨answer, m⟩
  cases answer with
  | error found => simp
  | ok a =>
    simp only [Prod.mk.injEq, reduceCtorEq, false_and, false_or, Except.ok.injEq]
    constructor
    · intro h
      exact ⟨a, m, ⟨rfl, rfl⟩, h⟩
    · rintro ⟨a', m', ⟨rfl, rfl⟩, h⟩
      exact h

theorem Yields.fails {m : σ} (hx : Yields x s a m) (hf : Fails (f a) m fault t) :
    Fails (x >>= f) s fault t :=
  fails_bind.2 (.inr ⟨a, m, hx, hf⟩)

@[simp] theorem fails_get : ¬ Fails (get : ExceptT ε (StateM σ) σ) s fault t := by
  show ¬ ((.ok s, s) : Except ε σ × σ) = (.error fault, t)
  simp

@[simp] theorem fails_modify {f : σ → σ} :
    ¬ Fails (modify f : ExceptT ε (StateM σ) Unit) s fault t := by
  show ¬ ((.ok ⟨⟩, f s) : Except ε Unit × σ) = (.error fault, t)
  simp

@[simp] theorem fails_modifyGet {f : σ → α × σ} :
    ¬ Fails (modifyGet f : ExceptT ε (StateM σ) α) s fault t := by
  show ¬ ((.ok (f s).1, (f s).2) : Except ε α × σ) = (.error fault, t)
  simp

@[simp] theorem fails_throw {fault found : ε} :
    Fails (throw found : ExceptT ε (StateM σ) α) s fault t ↔ found = fault ∧ s = t := by
  show ((.error found, s) : Except ε α × σ) = (.error fault, t) ↔ found = fault ∧ s = t
  simp

@[simp] theorem fails_liftM {e : Except ε α} :
    Fails (liftM e : ExceptT ε (StateM σ) α) s fault t ↔ e = .error fault ∧ s = t := by
  show ((e, s) : Except ε α × σ) = (.error fault, t) ↔ e = .error fault ∧ s = t
  simp

@[simp] theorem yields_forM_nil {f : α → ExceptT ε (StateM σ) PUnit} {u : PUnit} :
    Yields (forM ([] : List α) f) s u t ↔ s = t := by
  rw [forM_nil, yields_pure]
  simp

@[simp] theorem yields_forM_cons {f : α → ExceptT ε (StateM σ) PUnit} {l : List α} {u : PUnit} :
    Yields (forM (a :: l) f) s u t ↔ ∃ m, Yields (f a) s ⟨⟩ m ∧ Yields (forM l f) m u t := by
  rw [forM_cons, yields_bind]
  exact ⟨fun ⟨_, m, h⟩ => ⟨m, h⟩, fun ⟨m, h⟩ => ⟨⟨⟩, m, h⟩⟩

end

/-! ## Answers and steps that end well -/

/-- An answer is no fault. -/
def Known {ε α : Type} (answer : Except ε α) : Prop := ∃ a, answer = .ok a

namespace Known

variable {ε α β : Type}
variable {answer : Except ε α} {next : α → Except ε β}

@[simp] theorem ok (a : α) : Known (.ok a : Except ε α) := ⟨a, rfl⟩

@[simp] theorem pure (a : α) : Known (pure a : Except ε α) := ⟨a, rfl⟩

theorem bind_eq_ok_iff {b : β} :
    answer >>= next = .ok b ↔ ∃ a, answer = .ok a ∧ next a = .ok b := by
  cases answer with
  | error fault | ok a => simp [bind, Except.bind]

/-- An answer and what comes after it: the fault is that of the first one which is a fault. -/
theorem bind_eq_error_iff {fault : ε} :
    answer >>= next = .error fault ↔
      answer = .error fault ∨ ∃ a, answer = .ok a ∧ next a = .error fault := by
  cases answer with
  | error found | ok a => simp [bind, Except.bind]

@[simp] theorem bind_iff : Known (answer >>= next) ↔ ∃ a, answer = .ok a ∧ Known (next a) := by
  unfold Known
  simp only [bind_eq_ok_iff]
  exact ⟨fun ⟨b, a, ha, hb⟩ => ⟨a, ha, b, hb⟩, fun ⟨a, ha, b, hb⟩ => ⟨b, a, ha, hb⟩⟩

/-- The second answer is known or not whatever the first one is. -/
theorem bind_iff_and {p : Prop} (h : ∀ a, Known (next a) ↔ p) :
    Known (answer >>= next) ↔ Known answer ∧ p := by
  rw [bind_iff]
  constructor
  · rintro ⟨a, ha, hnext⟩
    exact ⟨⟨a, ha⟩, (h a).1 hnext⟩
  · rintro ⟨⟨a, ha⟩, hp⟩
    exact ⟨a, ha, (h a).2 hp⟩

@[simp] theorem bind_pure_iff {f : α → β} :
    Known (answer >>= fun a => Pure.pure (f a)) ↔ Known answer := by
  rw [bind_iff_and (p := True) fun a => iff_true_intro (pure (f a)), and_true]

end Known

section

variable {ε σ α β : Type}

/-- A step ends well from some state. -/
def Able (action : ExceptT ε (StateM σ) α) : Prop :=
  ∃ before result after, Yields action before result after

/-- A step ends well from every state. -/
def Sure (action : ExceptT ε (StateM σ) α) : Prop :=
  ∀ before, ∃ result after, Yields action before result after

theorem not_able_throw {fault : ε} : ¬ Able (throw fault : ExceptT ε (StateM σ) α) := by
  rintro ⟨before, _, after, h⟩
  exact yields_throw h

variable {x : ExceptT ε (StateM σ) α} {f : α → ExceptT ε (StateM σ) β} {answer : Except ε α}

namespace Able

theorem left (h : Able (x >>= f)) : Able x := by
  obtain ⟨before, b, after, hyields⟩ := h
  obtain ⟨a, middle, hx, -⟩ := yields_bind.1 hyields
  exact ⟨before, a, middle, hx⟩

theorem right (h : Able (x >>= f)) : ∃ a, Able (f a) := by
  obtain ⟨before, b, after, hyields⟩ := h
  obtain ⟨a, middle, -, hf⟩ := yields_bind.1 hyields
  exact ⟨a, middle, b, after, hf⟩

theorem known (h : Able (liftM answer : ExceptT ε (StateM σ) α)) : Known answer := by
  obtain ⟨before, a, after, hyields⟩ := h
  exact ⟨a, (yields_liftM.1 hyields).1⟩

theorem of_liftM_bind (h : Able (MonadLiftT.monadLift answer >>= f)) :
    ∃ a, answer = .ok a ∧ Able (f a) := by
  obtain ⟨before, b, after, hyields⟩ := h
  obtain ⟨a, middle, hanswer, hf⟩ := yields_bind.1 hyields
  exact ⟨a, (yields_liftM.1 hanswer).1, middle, b, after, hf⟩

theorem of_mem_forM {f : α → ExceptT ε (StateM σ) PUnit} {items : List α} (h : Able (items.forM f))
    {item : α} (hitem : item ∈ items) : Able (f item) := by
  induction items with
  | nil => simp at hitem
  | cons first rest ih =>
    rw [forM_eq_forM, forM_cons] at h
    rcases mem_cons.1 hitem with rfl | hitem
    · exact h.left
    · obtain ⟨_, hrest⟩ := h.right
      exact ih hrest hitem

theorem of_mem_mapM {items : List α} (h : Able (items.mapM f)) {item : α} (hitem : item ∈ items) :
    Able (f item) := by
  induction items with
  | nil => simp at hitem
  | cons first rest ih =>
    rw [mapM_cons] at h
    rcases mem_cons.1 hitem with rfl | hitem
    · exact h.left
    · obtain ⟨_, hrest⟩ := h.right
      exact ih hrest.left hitem

end Able

namespace Sure

theorem pure (a : α) : Sure (pure a : ExceptT ε (StateM σ) α) :=
  fun before => ⟨a, before, yields_pure.2 ⟨rfl, rfl⟩⟩

theorem bind (hx : Sure x) (hf : ∀ a, Sure (f a)) : Sure (x >>= f) := by
  intro before
  obtain ⟨a, middle, hyields⟩ := hx before
  obtain ⟨b, after, hyields'⟩ := hf a middle
  exact ⟨b, after, yields_bind.2 ⟨a, middle, hyields, hyields'⟩⟩

theorem get : Sure (get : ExceptT ε (StateM σ) σ) :=
  fun before => ⟨before, before, yields_get.2 ⟨rfl, rfl⟩⟩

theorem modify (change : σ → σ) : Sure (modify change : ExceptT ε (StateM σ) Unit) :=
  fun before => ⟨(), change before, yields_modify.2 rfl⟩

theorem liftM (h : Known answer) : Sure (liftM answer : ExceptT ε (StateM σ) α) := by
  obtain ⟨a, rfl⟩ := h
  exact fun before => ⟨a, before, yields_liftM.2 ⟨rfl, rfl⟩⟩

theorem liftM_bind {a : α} (h : answer = .ok a) (hf : Sure (f a)) :
    Sure (MonadLiftT.monadLift answer >>= f) := by
  intro before
  obtain ⟨b, after, hyields⟩ := hf before
  exact ⟨b, after, yields_bind.2 ⟨a, before, yields_liftM.2 ⟨h, rfl⟩, hyields⟩⟩

theorem forM {f : α → ExceptT ε (StateM σ) PUnit} (items : List α)
    (h : ∀ item ∈ items, Sure (f item)) : Sure (items.forM f) := by
  induction items with
  | nil => exact pure _
  | cons item rest ih =>
    rw [forM_eq_forM, forM_cons]
    refine (h item mem_cons_self).bind fun _ => ?_
    exact ih (forall_mem_cons.1 h).2

theorem mapM (items : List α) (h : ∀ item ∈ items, Sure (f item)) : Sure (items.mapM f) := by
  induction items with
  | nil => exact pure _
  | cons item rest ih =>
    rw [mapM_cons]
    refine (h item mem_cons_self).bind fun _ => ?_
    exact (ih (forall_mem_cons.1 h).2).bind fun _ => pure _

end Sure

/-- A step has faults of one kind only, wherever it starts. -/
def FailsOnly (kind : ε → Prop) (action : ExceptT ε (StateM σ) α) : Prop :=
  ∀ before fault after, Fails action before fault after → kind fault

namespace FailsOnly

variable {kind : ε → Prop}

theorem mono {other : ε → Prop} (h : FailsOnly kind x) (hkind : ∀ fault, kind fault → other fault) :
    FailsOnly other x :=
  fun before fault after hfails => hkind fault (h before fault after hfails)

theorem of_sure (h : Sure x) : FailsOnly kind x := by
  intro before fault after hfails
  obtain ⟨result, _, hyields⟩ := h before
  exact absurd hfails hyields.not_fails

theorem pure (a : α) : FailsOnly kind (pure a : ExceptT ε (StateM σ) α) := of_sure (Sure.pure a)

theorem get : FailsOnly kind (get : ExceptT ε (StateM σ) σ) := of_sure Sure.get

theorem modify (change : σ → σ) : FailsOnly kind (modify change : ExceptT ε (StateM σ) Unit) :=
  of_sure (Sure.modify change)

theorem bind (hx : FailsOnly kind x)
    (hf : ∀ before a after, Yields x before a after → FailsOnly kind (f a)) :
    FailsOnly kind (x >>= f) := by
  intro before fault after h
  rcases fails_bind.1 h with h | ⟨a, middle, hyields, h⟩
  · exact hx before fault after h
  · exact hf before a middle hyields middle fault after h

theorem throw {fault : ε} (h : kind fault) :
    FailsOnly kind (throw fault : ExceptT ε (StateM σ) α) := by
  intro before found after hfails
  obtain ⟨rfl, -⟩ := fails_throw.1 hfails
  exact h

theorem liftM (h : ∀ fault, answer = .error fault → kind fault) :
    FailsOnly kind (liftM answer : ExceptT ε (StateM σ) α) :=
  fun _ fault _ hfails => h fault (fails_liftM.1 hfails).1

theorem forM {f : α → ExceptT ε (StateM σ) PUnit} (items : List α)
    (h : ∀ item ∈ items, FailsOnly kind (f item)) : FailsOnly kind (items.forM f) := by
  induction items with
  | nil => exact pure _
  | cons item rest ih =>
    rw [forM_eq_forM, forM_cons]
    refine (h item mem_cons_self).bind fun _ _ _ _ => ?_
    exact ih (forall_mem_cons.1 h).2

end FailsOnly

end

end RobotBlocks
