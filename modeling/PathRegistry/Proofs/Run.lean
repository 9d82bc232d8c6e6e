import PathRegistry.Connection
import PathRegistry.Workspace

/-!
# How an action runs

An action ends well or in a failure, and leaves a bench in either case.  The
lemmas `…_eq_ok` say what it means for an action to end well: which of its parts
ended well, with which values, on which benches.  They open an action from the
front, one statement after the other.

`Keeps P a` says that the action leaves a table with property `P` behind whenever
it finds one, also when it fails half way.  Each way to build an action keeps what
its parts keep, so a property of tables is followed through a call statement by
statement.

## Main statements

* `bind_eq_ok`, `read_eq_ok`, `write_eq_ok`, `fresh_eq_ok` — ending well, part by part.
* `bind_eq_error`, `write_eq_error`, `atomically_eq_error` — failing, part by part.
* `Keeps.bind`, `Keeps.write`, `Keeps.atomically` — keeping a property, part by part.
* `Connection.transaction_eq` — running an action as a whole is running it between
  the beginning and the end of a transaction.
-/

namespace PathRegistry

namespace Action

variable {α β : Type} {a : Action α} {f : α → Action β} {b b' b'' : Bench}

/-- The table that the run of an action leaves. -/
def left : EStateM.Result Failure Bench α → Table
  | .ok _ b => b.table
  | .error _ b => b.table

theorem pure_run (x : α) (b : Bench) : (pure x : Action α) b = .ok x b := rfl

theorem bind_run (a : Action α) (f : α → Action β) (b : Bench) :
    (a >>= f) b = match a b with
      | .ok x b' => f x b'
      | .error e b' => .error e b' := by
  show EStateM.bind a f b = _
  unfold EStateM.bind
  cases a b <;> rfl

theorem map_run (g : α → β) (a : Action α) (b : Bench) :
    (g <$> a) b = match a b with
      | .ok x b' => .ok (g x) b'
      | .error e b' => .error e b' := by
  show EStateM.map g a b = _
  unfold EStateM.map
  cases a b <;> rfl

theorem discard_run (a : Action α) (b : Bench) :
    (discard a) b = match a b with
      | .ok _ b' => .ok () b'
      | .error e b' => .error e b' := by
  rw [← map_run]
  rfl

/-! ## Ending well -/

theorem pure_eq_ok {x y : α} : (pure x : Action α) b = .ok y b' ↔ x = y ∧ b = b' := by
  rw [pure_run, EStateM.Result.ok.injEq]

theorem bind_eq_ok {y : β} :
    (a >>= f) b = .ok y b'' ↔ ∃ x b', a b = .ok x b' ∧ f x b' = .ok y b'' := by
  rw [bind_run]
  cases a b with
  | ok x c =>
    constructor
    · exact fun h => ⟨x, c, rfl, h⟩
    · rintro ⟨z, d, hRun, h⟩
      cases hRun
      exact h
  | error e c => simp

theorem map_eq_ok {g : α → β} {y : β} :
    (g <$> a) b = .ok y b' ↔ ∃ x, a b = .ok x b' ∧ g x = y := by
  rw [map_run]
  cases a b with
  | ok x c =>
    constructor
    · intro h
      cases h
      exact ⟨x, rfl, rfl⟩
    · rintro ⟨z, hRun, rfl⟩
      cases hRun
      rfl
  | error e c => simp

theorem discard_eq_ok {u : PUnit} : (discard a) b = .ok u b' ↔ ∃ x, a b = .ok x b' := by
  rw [discard_run]
  cases a b <;> simp

theorem read_eq_ok {statement : Table → Except Failure α} {x : α} :
    read statement b = .ok x b' ↔ statement b.table = .ok x ∧ b = b' := by
  unfold read
  cases statement b.table <;> simp

/-- What has been read is what the rest goes on with. -/
theorem read_bind {statement : Table → Except Failure α} {x : α}
    (h : statement b.table = .ok x) : (read statement >>= f) b = f x b := by
  rw [bind_run, read_eq_ok.mpr ⟨h, rfl⟩]

theorem write_eq_ok {statement : Table → Except Failure (α × Table)} {x : α} :
    write statement b = .ok x b' ↔
      b.writable = true ∧ ∃ t, statement b.table = .ok (x, t) ∧ { b with table := t } = b' := by
  unfold write
  split
  · rename_i hWritable
    cases hRun : statement b.table with
    | ok p =>
      obtain ⟨y, t⟩ := p
      simp only [EStateM.Result.ok.injEq, hWritable, true_and, Except.ok.injEq, Prod.mk.injEq]
      constructor
      · rintro ⟨rfl, rfl⟩
        exact ⟨t, ⟨rfl, rfl⟩, rfl⟩
      · rintro ⟨u, ⟨rfl, rfl⟩, rfl⟩
        exact ⟨rfl, rfl⟩
    | error e => simp
  · rename_i hWritable
    simp [hWritable]

theorem fresh_eq_ok {i : Identifier} :
    fresh b = .ok i b' ↔ b.supply.next = i ∧ { b with supply := b.supply.rest } = b' := by
  rw [fresh, EStateM.Result.ok.injEq]

theorem insert_eq_ok {i : Identifier} {path : Text} {u : Unit} :
    insert i path b = .ok u b' ↔
      b.writable = true ∧ ∃ t, b.table.insert i path = .ok t ∧ { b with table := t } = b' := by
  rw [insert, write_eq_ok]
  cases hRun : b.table.insert i path <;> simp [Except.map]

theorem atomically_eq_ok {x : α} : atomically a b = .ok x b' ↔ a b = .ok x b' := by
  unfold atomically
  cases a b <;> simp

/-- **A failed whole changes no row.** -/
theorem table_of_atomically_eq_error {e : Failure} (h : atomically a b = .error e b') :
    b'.table = b.table := by
  unfold atomically at h
  cases hRun : a b with
  | ok x c => simp [hRun] at h
  | error d c =>
    simp only [hRun, EStateM.Result.error.injEq] at h
    rw [← h.2]

/-! ## Ending in a failure -/

section Failing

variable {e : Failure}

theorem bind_eq_error :
    (a >>= f) b = .error e b'' ↔
      a b = .error e b'' ∨ ∃ x b', a b = .ok x b' ∧ f x b' = .error e b'' := by
  rw [bind_run]
  cases a b with
  | ok x c =>
    constructor
    · exact fun h => .inr ⟨x, c, rfl, h⟩
    · rintro (h | ⟨y, d, hRun, h⟩)
      · cases h
      · cases hRun
        exact h
  | error d c => simp

theorem discard_eq_error : (discard a) b = .error e b' ↔ a b = .error e b' := by
  rw [discard_run]
  cases a b <;> simp

theorem write_eq_error (hWritable : b.writable = true)
    {statement : Table → Except Failure (α × Table)} :
    write statement b = .error e b' ↔ statement b.table = .error e ∧ b = b' := by
  unfold write
  rw [if_pos hWritable]
  cases statement b.table <;> simp

theorem insert_eq_error (hWritable : b.writable = true) {i : Identifier} {path : Text} :
    insert i path b = .error e b' ↔ b.table.insert i path = .error e ∧ b = b' := by
  rw [insert, write_eq_error hWritable]
  cases b.table.insert i path <;> simp [Except.map]

theorem atomically_eq_error :
    atomically a b = .error e b' ↔ ∃ c, a b = .error e c ∧ { c with table := b.table } = b' := by
  unfold atomically
  cases a b with
  | ok x c => simp
  | error d c =>
    rw [EStateM.Result.error.injEq]
    constructor
    · rintro ⟨rfl, rfl⟩
      exact ⟨c, rfl, rfl⟩
    · rintro ⟨c', hRun, rfl⟩
      cases hRun
      exact ⟨rfl, rfl⟩

end Failing

/-! ## Running on a table -/

section On

variable {t t' : Table} {writable : Bool} {supply supply' : Supply}

theorem on_table : (a.on t writable supply).2.1 = left (a ⟨t, writable, supply⟩) := by
  unfold on
  cases a ⟨t, writable, supply⟩ <;> rfl

theorem read_on (statement : Table → Except Failure α) :
    ((read statement).on t writable supply).1 = statement t := by
  unfold on read
  cases statement t <;> rfl

theorem map_on_fst (g : α → β) (a : Action α) :
    ((g <$> a).on t writable supply).1 = (a.on t writable supply).1.map g := by
  unfold on
  rw [map_run]
  cases a ⟨t, writable, supply⟩ <;> rfl

theorem atomically_on_fst (a : Action α) :
    ((atomically a).on t writable supply).1 = (a.on t writable supply).1 := by
  unfold on atomically
  cases a ⟨t, writable, supply⟩ <;> rfl

theorem on_eq_ok {x : α} :
    a.on t writable supply = (.ok x, t', supply') ↔
      ∃ w, a ⟨t, writable, supply⟩ = .ok x ⟨t', w, supply'⟩ := by
  unfold on
  cases a ⟨t, writable, supply⟩ with
  | ok y b => cases b; simp_all
  | error e b => simp

theorem on_eq_error {e : Failure} :
    a.on t writable supply = (.error e, t', supply') ↔
      ∃ w, a ⟨t, writable, supply⟩ = .error e ⟨t', w, supply'⟩ := by
  unfold on
  cases a ⟨t, writable, supply⟩ with
  | ok y b => simp
  | error d b => cases b; simp_all

theorem on_fst_eq_ok {x : α} :
    (a.on t writable supply).1 = .ok x ↔ ∃ b, a ⟨t, writable, supply⟩ = .ok x b := by
  unfold on
  cases a ⟨t, writable, supply⟩ <;> simp

theorem on_fst_eq_error {e : Failure} :
    (a.on t writable supply).1 = .error e ↔ ∃ b, a ⟨t, writable, supply⟩ = .error e b := by
  unfold on
  cases a ⟨t, writable, supply⟩ <;> simp

end On

/-! ## Keeping a property of the table -/

variable {P : Table → Prop}

/-- The action leaves a table with the property whenever it finds one, whether it ends
well or not. -/
def Keeps (P : Table → Prop) (a : Action α) : Prop := ∀ b, P b.table → P (left (a b))

theorem Keeps.pure (x : α) : Keeps P (Pure.pure x : Action α) := fun _ h => h

/-- The second part only has to keep the property for the values that the first part
can end with. -/
theorem Keeps.bind (ha : Keeps P a)
    (hf : ∀ x, (∃ b b', a b = .ok x b') → Keeps P (f x)) : Keeps P (a >>= f) := by
  intro b hb
  have hFirst := ha b hb
  rw [bind_run]
  cases hRun : a b with
  | ok x b' =>
    rw [hRun] at hFirst
    exact hf x ⟨b, b', hRun⟩ b' hFirst
  | error e b' =>
    rw [hRun] at hFirst
    exact hFirst

theorem Keeps.map (ha : Keeps P a) (g : α → β) : Keeps P (g <$> a) := by
  intro b hb
  have hFirst := ha b hb
  rw [map_run]
  cases hRun : a b <;> simpa [hRun, left] using hFirst

theorem Keeps.discard (ha : Keeps P a) : Keeps P (Functor.discard a) := by
  intro b hb
  have hFirst := ha b hb
  rw [discard_run]
  cases hRun : a b <;> simpa [hRun, left] using hFirst

theorem Keeps.read (statement : Table → Except Failure α) : Keeps P (Action.read statement) := by
  intro b hb
  unfold Action.read
  cases statement b.table <;> exact hb

theorem Keeps.fresh : Keeps P Action.fresh := fun _ hb => hb

theorem Keeps.write {statement : Table → Except Failure (α × Table)}
    (h : ∀ t x t', P t → statement t = .ok (x, t') → P t') :
    Keeps P (Action.write statement) := by
  intro b hb
  unfold Action.write
  split
  · cases hRun : statement b.table with
    | ok p => exact h b.table p.1 p.2 hb hRun
    | error e => exact hb
  · exact hb

theorem Keeps.insert {i : Identifier} {path : Text}
    (h : ∀ t t', P t → t.insert i path = .ok t' → P t') : Keeps P (Action.insert i path) := by
  refine Keeps.write fun t u t' ht hRun => ?_
  cases hInsert : t.insert i path with
  | error e => simp [hInsert, Except.map] at hRun
  | ok t'' =>
    simp only [hInsert, Except.map, Except.ok.injEq, Prod.mk.injEq] at hRun
    exact hRun.2 ▸ h t t'' ht hInsert

theorem Keeps.atomically (ha : Keeps P a) : Keeps P (Action.atomically a) := by
  intro b hb
  have hFirst := ha b hb
  unfold Action.atomically
  cases hRun : a b with
  | ok x b' =>
    rw [hRun] at hFirst
    exact hFirst
  | error e b' => exact hb

end Action

namespace Connection

variable {α : Type}

/-- Runs an action between the beginning and the end of a transaction: its work is
committed if it ends well and rolled back if it fails. -/
def transaction (c : Connection) (supply : Supply) (a : Action α) :
    Except Failure α × Connection × Supply :=
  match c.begin with
  | .error e => (.error e, c, supply)
  | .ok opened =>
    let (result, ran, rest) := opened.run supply a
    let ended := match result with
      | .ok _ => ran.commit
      | .error _ => ran.rollback
    match ended with
    | .ok closed => (result, closed, rest)
    | .error e => (.error e, ran, rest)

/-- **All or nothing is one transaction**: to run an action as a whole is to run its
statements in a transaction of their own. -/
theorem transaction_eq (t : Table) (supply : Supply) (a : Action α) :
    transaction ⟨t, none⟩ supply a =
      ((a.atomically.on t true supply).1, ⟨(a.atomically.on t true supply).2.1, none⟩,
        (a.atomically.on t true supply).2.2) := by
  unfold transaction run Action.on Action.atomically
  cases hRun : a ⟨t, true, supply⟩ <;>
    simp [begin, hRun, commit, rollback]

end Connection

end PathRegistry
