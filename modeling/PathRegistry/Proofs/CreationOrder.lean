import PathRegistry.Proofs.Departure

/-!
# The order of creation

A table is its rows in the order of their creation, but no record has a place in that order
that a caller could ask for.  Two tables with the same rows list them alike, find the same
rows, refuse the same paths and name the same path as taken.

`OrderBlind` says that an action ends alike on any two such tables.  Every way to build an
action keeps it, and every statement has it but one: rewriting the stem of a range visits the
rows in the order of their creation, and a row that comes before another one may be sent to
where that one still is.  So the order shows in a recursive move, and only there.  It shows
exactly if all new paths are distinct and one of the two orders has a row sent to where a
later one still is, the other one not: then the one move goes on and the other fails.

## Main statements

* `Consistent.byPath_of_perm`, `Consistent.firstTaken?_of_perm` — what is read is the same.
* `OrderBlind.bind`, `OrderBlind.write` — ending alike, part by part.
* `Relocation.move_ends_alike` — the statement that is not blind, on tables that agree on it.
* `Call.blind` — without recursive moves, the order never shows.
* `Table.Reachable.ends_alike_iff` — when a call ends alike on two tables with the same rows.
-/

namespace PathRegistry

open PathRegistry.Action Subtree Table

/-! ## Tables with the same rows -/

namespace Table

variable {t u : Table} {path : Text} {i : Identifier}

theorem holdsPath_of_perm (p : t.Perm u) (path : Text) : t.holdsPath path = u.holdsPath path :=
  p.any_eq

theorem holdsKey_of_perm (p : t.Perm u) (k : Key) : t.holdsKey k = u.holdsKey k := by
  rw [holdsKey, holdsKey, p.any_eq]

namespace Consistent

theorem perm_iff (h : t.Consistent) (hu : u.Consistent) : t.Perm u ↔ ∀ r, r ∈ t ↔ r ∈ u :=
  List.perm_ext_iff_of_nodup (List.Nodup.of_map _ h.paths_nodup)
    (List.Nodup.of_map _ hu.paths_nodup)

variable (h : t.Consistent) (p : t.Perm u)

include h p

theorem of_perm : u.Consistent :=
  ⟨fun r hr => h.identified r (p.mem_iff.mpr hr), fun r hr => h.normal r (p.mem_iff.mpr hr),
    (p.map _).nodup_iff.mp h.paths_nodup, (p.map _).nodup_iff.mp h.keys_nodup⟩

theorem idAt_of_perm (path : Text) : t.idAt path = u.idAt path := by
  have hRow : t.rowAt? path = u.rowAt? path := by
    refine Option.ext fun r => ?_
    rw [h.rowAt?_eq_some, (h.of_perm p).rowAt?_eq_some, p.mem_iff]
  rw [idAt, idAt, hRow]

theorem pathOf?_of_perm (i : Identifier) : t.pathOf? i = u.pathOf? i := by
  refine Option.ext fun path => ?_
  rw [h.pathOf?_eq_some, (h.of_perm p).pathOf?_eq_some, p.mem_iff]

/-- **The listing is the same**: there is one way only to order distinct paths. -/
theorem byPath_of_perm : t.byPath = u.byPath := by
  refine List.Perm.eq_of_pairwise (fun r s _ _ hrs hsr => ?_) h.byPath_pairwise
    (h.of_perm p).byPath_pairwise ((byPath_perm t).trans (p.trans (byPath_perm u).symm))
  rw [Text.isBefore_iff] at hrs hsr
  exact absurd hsr (List.lt_asymm hrs)

theorem entriesWithin_of_perm (range : TextRange) :
    t.entriesWithin range = u.entriesWithin range := by
  have hWithin : (t.within range).byPath = (u.within range).byPath :=
    (h.filter _).byPath_of_perm (p.filter _)
  rw [entriesWithin, entriesWithin, entries, entries, hWithin]

/-- **The first path that is taken is the same.** -/
theorem firstTaken?_of_perm (range : TextRange) (reroot : Text → Text) :
    t.firstTaken? range reroot = u.firstTaken? range reroot := by
  have hAny (r : Row) : ((t.within range).any fun s => reroot s.path == r.path) =
      (u.within range).any fun s => reroot s.path == r.path := (p.filter _).any_eq
  unfold firstTaken?
  simp only [h.byPath_of_perm p, hAny]

end Consistent

end Table

/-- Two benches differ in the order of their rows at most. -/
structure Bench.Alike (b c : Bench) : Prop where
  /-- The rows are the same. -/
  rows : b.table.Perm c.table
  /-- Both may be written or neither. -/
  writable : b.writable = c.writable
  /-- The fresh identifiers are the same. -/
  supply : b.supply = c.supply

namespace Action

variable {α β : Type} {a : Action α} {f : α → Action β} {b c : Bench}

/-! ## Ending alike -/

/-- Two results of a statement that writes: the same failure, or the same value and tables
with the same rows. -/
inductive WritesAlike : Except Failure (α × Table) → Except Failure (α × Table) → Prop
  | ok {t u : Table} (x : α) : t.Perm u → WritesAlike (.ok (x, t)) (.ok (x, u))
  | error (e : Failure) : WritesAlike (.error e) (.error e)

/-- Two runs end with the same value or the same failure, on benches that are alike. -/
inductive EndsAlike : EStateM.Result Failure Bench α → EStateM.Result Failure Bench α → Prop
  | ok {b c : Bench} (x : α) : b.Alike c → EndsAlike (.ok x b) (.ok x c)
  | error {b c : Bench} (e : Failure) : b.Alike c → EndsAlike (.error e b) (.error e c)

theorem EndsAlike.bind (ha : EndsAlike (a b) (a c))
    (hf : ∀ x b' c', a b = .ok x b' → b'.Alike c' → EndsAlike (f x b') (f x c')) :
    EndsAlike ((a >>= f) b) ((a >>= f) c) := by
  rw [bind_run, bind_run]
  generalize hRun : a b = p at ha
  generalize a c = q at ha
  cases ha with
  | ok x hAlike => exact hf x _ _ hRun hAlike
  | error e hAlike => exact .error e hAlike

theorem EndsAlike.map (ha : EndsAlike (a b) (a c)) (g : α → β) :
    EndsAlike ((g <$> a) b) ((g <$> a) c) := by
  rw [map_run, map_run]
  generalize a b = p at ha
  generalize a c = q at ha
  cases ha with
  | ok x hAlike => exact .ok (g x) hAlike
  | error e hAlike => exact .error e hAlike

theorem EndsAlike.discard (ha : EndsAlike (a b) (a c)) :
    EndsAlike (Functor.discard a b) (Functor.discard a c) := ha.map fun _ => PUnit.unit

theorem EndsAlike.write {statement : Table → Except Failure (α × Table)} (h : b.Alike c)
    (hStatement : b.writable = true → WritesAlike (statement b.table) (statement c.table)) :
    EndsAlike (write statement b) (write statement c) := by
  unfold Action.write
  rw [← h.writable]
  split
  · rename_i hWritable
    have hBoth := hStatement hWritable
    generalize statement b.table = x at hBoth
    generalize statement c.table = y at hBoth
    cases hBoth with
    | ok x hRows => exact .ok x ⟨hRows, rfl, h.supply⟩
    | error e => exact .error e h
  · exact .error _ h

theorem EndsAlike.atomically (h : b.Alike c) (ha : EndsAlike (a b) (a c)) :
    EndsAlike (atomically a b) (atomically a c) := by
  unfold Action.atomically
  generalize a b = p at ha
  generalize a c = q at ha
  cases ha with
  | ok x hAlike => exact .ok x hAlike
  | error e hAlike => exact .error e ⟨h.rows, hAlike.writable, hAlike.supply⟩

/-- The action ends alike on benches that are alike, if their tables are consistent. -/
def OrderBlind (a : Action α) : Prop :=
  ∀ b c, b.table.Consistent → b.Alike c → EndsAlike (a b) (a c)

theorem OrderBlind.pure (x : α) : OrderBlind (Pure.pure x : Action α) := fun _ _ _ => .ok x

/-- The second part only has to end alike for the values that the first part can end with. -/
theorem OrderBlind.bind (ha : OrderBlind a) (hKeeps : Keeps Consistent a)
    (hf : ∀ x, (∃ b b', a b = .ok x b') → OrderBlind (f x)) : OrderBlind (a >>= f) := by
  intro b c hCons hAlike
  refine (ha b c hCons hAlike).bind fun x b' c' hRun hAlike' => ?_
  have hKept := hKeeps b hCons
  rw [hRun] at hKept
  exact hf x ⟨b, b', hRun⟩ b' c' hKept hAlike'

theorem OrderBlind.map (ha : OrderBlind a) (g : α → β) : OrderBlind (g <$> a) :=
  fun b c h hAlike => (ha b c h hAlike).map g

theorem OrderBlind.discard (ha : OrderBlind a) : OrderBlind (Functor.discard a) :=
  fun b c h hAlike => (ha b c h hAlike).discard

theorem OrderBlind.atomically (ha : OrderBlind a) : OrderBlind (Action.atomically a) :=
  fun b c h hAlike => .atomically hAlike (ha b c h hAlike)

theorem OrderBlind.read {statement : Table → Except Failure α}
    (h : ∀ t u, t.Consistent → t.Perm u → statement t = statement u) :
    OrderBlind (Action.read statement) := by
  intro b c hCons hAlike
  unfold Action.read
  rw [h b.table c.table hCons hAlike.rows]
  cases statement c.table with
  | ok x => exact .ok x hAlike
  | error e => exact .error e hAlike

theorem OrderBlind.write {statement : Table → Except Failure (α × Table)}
    (h : ∀ t u, t.Perm u → WritesAlike (statement t) (statement u)) :
    OrderBlind (Action.write statement) :=
  fun _ _ _ hAlike => .write hAlike fun _ => h _ _ hAlike.rows

theorem OrderBlind.fresh : OrderBlind Action.fresh := by
  intro b c _ hAlike
  unfold Action.fresh
  rw [← hAlike.supply]
  exact .ok _ ⟨hAlike.rows, hAlike.writable, rfl⟩

/-! ## The statements -/

theorem blind_idAt (path : Text) : OrderBlind (Action.read fun t => t.idAt path) :=
  .read fun _ _ h p => h.idAt_of_perm p path

theorem blind_entriesWithin (range : TextRange) :
    OrderBlind (Action.read fun t => t.entriesWithin range) :=
  .read fun _ _ h p => h.entriesWithin_of_perm p range

theorem blind_insert (i : Identifier) (path : Text) : OrderBlind (Action.insert i path) := by
  refine .write fun t u p => ?_
  unfold Table.insert add
  rw [holdsPath_of_perm p, holdsKey_of_perm p]
  cases u.holdsPath path with
  | true => exact .error _
  | false =>
    cases u.holdsKey (Key.ofId i) with
    | true => exact .error _
    | false => exact .ok () (p.append_right _)

theorem blind_repoint (i : Identifier) (path : Text) :
    OrderBlind (Action.write fun t => t.repoint i path) := by
  refine .write fun t u p => ?_
  unfold repoint
  dsimp only
  rw [p.any_eq, p.any_eq, p.countP_eq]
  split
  · split
    · exact .error _
    · exact .ok _ (p.map _)
  · exact .ok 0 p

theorem blind_eraseAt (path : Text) : OrderBlind (Action.write fun t => .ok (t.eraseAt path)) := by
  refine .write fun t u p => ?_
  rw [eraseAt, eraseAt, p.countP_eq]
  exact .ok _ (p.filter _)

theorem blind_eraseWithin (range : TextRange) :
    OrderBlind (Action.write fun t => .ok (t.eraseWithin range)) := by
  refine .write fun t u p => ?_
  rw [eraseWithin, eraseWithin, p.countP_eq]
  exact .ok _ (p.filter _)

end Action

/-! ## What lies below a path -/

namespace Relocation

variable {source target : Path} {t u : Table}

theorem blind_repointAll (source target : Path) (es : List Entry) :
    OrderBlind (repointAll (.below source) (.below target) es) := by
  induction es with
  | nil => exact .pure ()
  | cons e es ih =>
    rw [repointAll]
    split
    · rename_i path hCarry
      exact .bind (blind_repoint e.id path).discard
        (keeps_repoint (normalize_of_carry? hCarry) e.id).discard fun _ _ => ih
    · exact .bind (.pure ()) (Keeps.pure ()) fun _ _ => ih

theorem visits_of_perm (h : t.Consistent) (p : t.Perm u) (hClimbs : source.climbsOnly = true) :
    visits source t = visits source u := by
  rw [visits, visits, if_pos hClimbs, if_pos hClimbs]
  exact (h.filter _).byPath_of_perm (p.filter _)

/-- Rewriting a stem ends alike on tables that agree on whether it can be done. -/
theorem rerootWithin_writes_alike (h : t.Consistent) (p : t.Perm u) (hs : source.IsNormal)
    (ht : target.IsNormal) (hClimbs : source.climbsOnly = false)
    (hAgree : Fits source target t ↔ Fits source target u) :
    WritesAlike
      (t.rerootWithin (below source).range (·.drop (below source).stem.length)
        (below target).stem)
      (u.rerootWithin (below source).range (·.drop (below source).stem.length)
        (below target).stem) := by
  have hu := h.of_perm p
  by_cases hFits : Fits source target t
  · have hLength : (visits source t).length = (visits source u).length := by
      rw [visits, visits, hClimbs, if_neg Bool.false_ne_true, if_neg Bool.false_ne_true]
      exact (p.filter _).length_eq
    rw [(rerootWithin_eq_ok_iff_fits h hs ht hClimbs).mpr ⟨rfl, rfl, hFits⟩,
      (rerootWithin_eq_ok_iff_fits hu hs ht hClimbs).mpr ⟨rfl, rfl, hAgree.mp hFits⟩, hLength]
    exact .ok _ (p.map _)
  · rw [rerootWithin_of_clash h hs ht hClimbs hFits,
      rerootWithin_of_clash hu hs ht hClimbs (mt hAgree.mpr hFits), h.firstTaken?_of_perm p]
    exact .error _

/-- **Moving the rows below a path ends alike** on tables that agree on whether they fit. -/
theorem move_ends_alike {b c : Bench} (h : b.table.Consistent) (hAlike : b.Alike c)
    (hs : source.IsNormal) (ht : target.IsNormal)
    (hAgree : b.writable = true → (Fits source target b.table ↔ Fits source target c.table)) :
    EndsAlike (move source target b) (move source target c) := by
  by_cases hCurrent : source = .current
  · subst hCurrent
    exact .ok 0 hAlike
  cases hClimbs : source.climbsOnly with
  | true =>
    have hBlind : OrderBlind (move source target) := by
      unfold move
      rw [if_neg (mt isEmpty_below.mp hCurrent), if_pos hClimbs]
      exact .bind (blind_entriesWithin _) (Keeps.read _) fun es _ =>
        .bind (blind_repointAll source target es) (keeps_repointAll source target es)
          fun _ _ => .pure _
    exact hBlind b c h hAlike
  | false =>
    rw [move_eq_write hCurrent hClimbs]
    exact .write hAlike fun hWritable =>
      rerootWithin_writes_alike h hAlike.rows hs ht hClimbs (hAgree hWritable)

theorem blind_prepareCopies (s target : Subtree) (es : List Entry) :
    OrderBlind (prepareCopies s target es) := by
  induction es with
  | nil => exact .pure []
  | cons e es ih =>
    rw [prepareCopies]
    split
    · exact .bind .fresh Keeps.fresh fun _ _ =>
        .bind ih (Keeps.prepareCopies _ _ es) fun _ _ => .pure _
    · exact ih

theorem blind_insertAll {es : List Entry} (h : ∀ e ∈ es, normalize e.path = e.path) :
    OrderBlind (insertAll es) := by
  induction es with
  | nil => exact .pure ()
  | cons e es ih =>
    have hRest := ih fun f hf => h f (List.mem_cons_of_mem e hf)
    exact .bind (blind_insert e.id e.path) (keeps_insert (h e List.mem_cons_self) e.id)
      fun _ _ => hRest

theorem blind_copy (source target : Path) : OrderBlind (copy source target) := by
  unfold copy
  dsimp only
  split
  · exact .pure []
  · refine .bind (blind_entriesWithin _) (Keeps.read _) fun es _ =>
      .bind (blind_prepareCopies _ _ es) (Keeps.prepareCopies _ _ es) fun copies hCopies => ?_
    have hNormal : ∀ e ∈ copies.map fun c => (⟨c.id, c.path⟩ : Entry),
        normalize e.path = e.path := by
      obtain ⟨b, b', hRun⟩ := hCopies
      intro e he
      obtain ⟨c, hc, rfl⟩ := List.mem_map.mp he
      exact normalize_of_prepareCopies hRun c hc
    exact .bind (blind_insertAll hNormal) (keeps_insertAll hNormal) fun _ _ => .pure _

theorem blind_delete (root : Path) : OrderBlind (delete root) := by
  unfold delete
  dsimp only
  split
  · exact .pure 0
  · exact blind_eraseWithin _

end Relocation

/-! ## The calls -/

namespace Registry

variable {p source target : Path}

theorem blind_indexPath (hp : p.IsNormal) : OrderBlind (indexPath p) := by
  refine .bind (blind_idAt p.text) (Keeps.read _) fun i? _ => ?_
  cases i? with
  | some i => exact .pure i
  | none =>
    exact .bind .fresh Keeps.fresh fun i _ =>
      .bind (blind_insert i p.text) (Action.keeps_insert (Path.normalize_text hp) i)
        fun _ _ => .pure i

theorem blind_indexPaths {ps : List Path} (hps : ∀ p ∈ ps, p.IsNormal) :
    OrderBlind (indexPaths ps) := by
  induction ps with
  | nil => exact .pure []
  | cons p ps ih =>
    have hp := hps p List.mem_cons_self
    have hRest := fun q hq => hps q (List.mem_cons_of_mem p hq)
    exact .bind (blind_indexPath hp) (keeps_indexPath hp) fun _ _ =>
      .bind (ih hRest) (keeps_indexPaths hRest) fun _ _ => .pure _

theorem blind_movePath (ht : target.IsNormal) : OrderBlind (movePath source target) := by
  refine .bind (blind_idAt source.text) (Keeps.read _) fun i? _ => ?_
  cases i? with
  | some i =>
    exact .bind (blind_repoint i target.text).discard
      (keeps_repoint (Path.normalize_text ht) i).discard fun _ _ => .pure i
  | none => exact blind_indexPath ht

theorem blind_insert (path : Text) (id? : Option Identifier) :
    OrderBlind (insert path id?) := by
  have hRest (i : Identifier) : OrderBlind (do
      Action.insert i (normalize path)
      return i) :=
    .bind (Action.blind_insert i _) (Action.keeps_insert (normalize_normalize path) i)
      fun _ _ => .pure i
  apply OrderBlind.atomically
  cases id? with
  | some i => exact .bind (.pure i) (Keeps.pure i) fun i _ => hRest i
  | none => exact .bind .fresh Keeps.fresh fun i _ => hRest i

theorem blind_copy (source target : Text) (recursive : Bool) :
    OrderBlind (copy source target recursive) := by
  have hs := Path.ofText_isNormal source
  have ht := Path.ofText_isNormal target
  have hRest (descendants : List CopiedEntry) : OrderBlind (do
      let sourceId ← indexPath (Path.ofText source)
      let i ← Action.fresh
      Action.insert i (Path.ofText target).text
      return (⟨⟨sourceId, i, (Path.ofText target).text⟩, descendants⟩ : CopyReport)) :=
    .bind (blind_indexPath hs) (keeps_indexPath hs) fun _ _ => .bind .fresh Keeps.fresh fun i _ =>
      .bind (Action.blind_insert i _) (Action.keeps_insert (Path.normalize_text ht) i)
        fun _ _ => .pure _
  apply OrderBlind.atomically
  cases recursive with
  | true =>
    exact .bind (Relocation.blind_copy _ _) (Relocation.keeps_copy _ _) fun ds _ => hRest ds
  | false => exact .bind (.pure []) (Keeps.pure []) fun ds _ => hRest ds

theorem blind_delete (path : Text) (recursive : Bool) : OrderBlind (delete path recursive) := by
  apply OrderBlind.atomically
  cases recursive with
  | true =>
    exact .bind (Relocation.blind_delete _).discard (Relocation.keeps_delete _).discard
      fun _ _ => (blind_eraseAt _).discard
  | false => exact (blind_eraseAt _).discard

variable {source target : Text} {t u : Table} {b c : Bench} {supply : Supply}

/-- **A recursive move ends alike** on tables that agree on whether the rows below the source
fit. -/
theorem move_ends_alike (h : b.table.Consistent) (hAlike : b.Alike c)
    (hAgree : b.writable = true → (Relocation.Fits (.ofText source) (.ofText target) b.table ↔
      Relocation.Fits (.ofText source) (.ofText target) c.table)) :
    EndsAlike (move source target true b) (move source target true c) := by
  have hs := Path.ofText_isNormal source
  have ht := Path.ofText_isNormal target
  refine .atomically hAlike ((Relocation.move_ends_alike h hAlike hs ht hAgree).discard.bind
    fun _ b' c' hRun hAlike' => blind_movePath ht b' c' ?_ hAlike')
  have hKept := (Relocation.keeps_move hs ht).discard b h
  rwa [hRun] at hKept

/-- If a row is sent to where a later one still is, the move fails and names a new path below
the target, which is not the target itself. -/
theorem failure_of_obstruction (supply : Supply) (h : t.Consistent)
    (hClimbs : (Path.ofText source).climbsOnly = false)
    (hObstructed : ¬ (Relocation.visits (.ofText source) t).Pairwise fun r s =>
      (below (.ofText source)).carry? r.path (below (.ofText target)) ≠ some s.path) :
    ∃ q, ((move source target true).on t true supply).1 = .error (.duplicatePath q) ∧
      q ≠ normalize target := by
  have hs := Path.ofText_isNormal source
  have ht := Path.ofText_isNormal target
  cases hRun : move source target true ⟨t, true, supply⟩ with
  | ok i b' =>
    obtain ⟨-, hFits, -⟩ := (move_eq_ok h).mp hRun
    exact absurd hFits.2 hObstructed
  | error e b' =>
    obtain ⟨q, rfl, ⟨-, r, hr, hIn, hNew⟩, -⟩ :=
      failure_of_clash h hRun hClimbs fun hFits => hObstructed hFits.2
    refine ⟨q, on_fst_eq_error.mpr ⟨b', hRun⟩, ?_⟩
    rw [← hNew]
    exact ne_target_of_carry? hs ht hClimbs (h.normal r hr)
      (carry?_eq_append hs ht hClimbs (h.normal r hr) hIn)

/-- **Where the order shows**: if in one order no row is sent to where a later one still is,
and the move ends with the same result in the other order, then none is there either. -/
theorem apart_of_same_result (h : t.Consistent) (p : t.Perm u)
    (hClimbs : (Path.ofText source).climbsOnly = false)
    (hFits : Relocation.Fits (.ofText source) (.ofText target) t)
    (hSame : ((move source target true).on t true supply).1 =
      ((move source target true).on u true supply).1) :
    Relocation.Fits (.ofText source) (.ofText target) u := by
  refine ⟨((p.map _).map _).nodup_iff.mp hFits.1, ?_⟩
  by_contra hObstructed
  obtain ⟨q, hFailed, hOther⟩ :=
    failure_of_obstruction supply (h.of_perm p) hClimbs hObstructed
  obtain ⟨b', hRun⟩ := on_fst_eq_error.mp (hSame.trans hFailed)
  -- here the rows below the source are moved, so only the path itself can be refused
  obtain ⟨c, hPath⟩ := movePath_fails_of_move h hRun hFits
  exact hOther (taken_of_movePath_eq_error (h.carry hFits.1) hPath).1

end Registry

/-- **Every call but a recursive move is blind to the order of creation.** -/
theorem Call.blind {c : Call} (hc : ∀ source target, c ≠ .move source target true) :
    OrderBlind c.action := by
  cases c with
  | index path => exact (Registry.blind_indexPath (Path.ofText_isNormal path)).atomically.map _
  | indexAll paths =>
    refine (Registry.blind_indexPaths fun p hp => ?_).atomically.map _
    obtain ⟨text, -, rfl⟩ := List.mem_map.mp hp
    exact Path.ofText_isNormal text
  | insert path id? => exact (Registry.blind_insert path id?).map _
  | lookUp path => exact (blind_idAt _).map _
  | locate i => exact (OrderBlind.read fun t u h p => by rw [h.pathOf?_of_perm p]).map _
  | move source target recursive =>
    cases recursive with
    | true => exact absurd rfl (hc source target)
    | false =>
      exact (Registry.blind_movePath (Path.ofText_isNormal target)).atomically.map _
  | copy source target recursive => exact (Registry.blind_copy source target recursive).map _
  | delete path recursive => exact (Registry.blind_delete path recursive).map _
  | entries =>
    refine (OrderBlind.read fun t u h p => ?_).map _
    rw [Table.entries, Table.entries, h.byPath_of_perm p]
  | count => exact (OrderBlind.read fun t u _ p => by rw [p.length_eq]).map _

/-- The call ends on both tables with the same answer or the same failure, leaves the same
rows, in one order or another, and the same fresh identifiers. -/
def Call.EndsAlike (c : Call) (t u : Table) (writable : Bool) (supply : Supply) : Prop :=
  (c.action.on t writable supply).1 = (c.action.on u writable supply).1 ∧
    (c.action.on t writable supply).2.1.Perm (c.action.on u writable supply).2.1 ∧
    (c.action.on t writable supply).2.2 = (c.action.on u writable supply).2.2

theorem Call.endsAlike_of_runs {c : Call} {t u : Table} {writable : Bool} {supply : Supply}
    (h : Action.EndsAlike (c.action ⟨t, writable, supply⟩) (c.action ⟨u, writable, supply⟩)) :
    c.EndsAlike t u writable supply := by
  unfold EndsAlike Action.on
  generalize c.action ⟨t, writable, supply⟩ = x at h
  generalize c.action ⟨u, writable, supply⟩ = y at h
  cases h with
  | ok a hAlike => exact ⟨rfl, hAlike.rows, hAlike.supply⟩
  | error e hAlike => exact ⟨rfl, hAlike.rows, hAlike.supply⟩

namespace Table.Reachable

variable {t u : Table}

/-- **When the order of creation shows.**  Two reachable tables have the same rows, in any two
orders.  A call ends alike on both, with the same answer or the same failure and the same rows,
unless it is a recursive move on a table that may be written whose new paths below the target
are distinct, and in one of the two orders, but not in the other, a row is sent to where one
that is visited later still is.  Then it does not. -/
theorem ends_alike_iff (ht : t.Reachable) (hu : u.Reachable) (hSame : ∀ r, r ∈ t ↔ r ∈ u)
    (c : Call) (writable : Bool) (supply : Supply) :
    c.EndsAlike t u writable supply ↔
      ∀ source target, c = .move source target true → writable = true →
        (Relocation.Fits (.ofText source) (.ofText target) t ↔
          Relocation.Fits (.ofText source) (.ofText target) u) := by
  have hCons := ht.consistent
  have p : t.Perm u := (hCons.perm_iff hu.consistent).mpr hSame
  have hAlike : Bench.Alike ⟨t, writable, supply⟩ ⟨u, writable, supply⟩ := ⟨p, rfl, rfl⟩
  constructor
  · rintro ⟨hResult, -⟩ source target rfl rfl
    cases hClimbs : (Path.ofText source).climbsOnly with
    | true =>
      have hNodup := ((p.map (Row.relocate (carried (.ofText source) (.ofText target)))).map
        (·.path)).nodup_iff
      exact and_congr hNodup (by rw [Relocation.visits_of_perm hCons p hClimbs])
    | false =>
      have hMove : ((Registry.move source target true).on t true supply).1 =
          ((Registry.move source target true).on u true supply).1 := by
        rw [Call.action, map_on_fst, map_on_fst] at hResult
        revert hResult
        cases ((Registry.move source target true).on t true supply).1 <;>
          cases ((Registry.move source target true).on u true supply).1 <;> simp [Except.map]
      exact ⟨fun hFits => Registry.apart_of_same_result hCons p hClimbs hFits hMove,
        fun hFits => Registry.apart_of_same_result hu.consistent p.symm hClimbs hFits hMove.symm⟩
  · intro hAgree
    apply Call.endsAlike_of_runs
    by_cases hMove : ∃ source target, c = .move source target true
    · obtain ⟨source, target, rfl⟩ := hMove
      exact (Registry.move_ends_alike hCons hAlike (hAgree source target rfl)).map _
    · exact Call.blind (fun source target hSame => hMove ⟨source, target, hSame⟩) _ _ hCons hAlike

/-- Two rows below a path that is moved away from both may have been created in either
order. -/
theorem ends_alike_iff_of_siblings :
    let i := (Supply.ofSeed 0).draw 0
    let j := (Supply.ofSeed 0).draw 1
    let made (c d : Call) : Table :=
      (d.action.on (c.action.on [] true (.ofSeed 1)).2.1 true (.ofSeed 1)).2.1
    let t := made (.insert ['a', '/', 'b'] (some i)) (.insert ['a', '/', 'c'] (some j))
    let u := made (.insert ['a', '/', 'c'] (some j)) (.insert ['a', '/', 'b'] (some i))
    t.Reachable ∧ u.Reachable ∧ t ≠ u ∧
      (Call.move ['a'] ['a', '/', 'a'] true).EndsAlike t u true (.ofSeed 2) := by
  intro i j made t u
  have ht : t.Reachable := .call _ _ _ (by decide) (.call _ _ _ (by decide) .empty)
  have hu : u.Reachable := .call _ _ _ (by decide) (.call _ _ _ (by decide) .empty)
  have hPerm : t.Perm u := by decide +kernel
  refine ⟨ht, hu, by decide +kernel,
    (ht.ends_alike_iff hu (fun _ => hPerm.mem_iff) _ true (.ofSeed 2)).mpr ?_⟩
  rintro source target hCall -
  cases hCall
  have hFits : Relocation.Fits (.ofText ['a']) (.ofText ['a', '/', 'a']) t := by
    unfold Relocation.Fits
    decide +kernel
  have hFits' : Relocation.Fits (.ofText ['a']) (.ofText ['a', '/', 'a']) u := by
    unfold Relocation.Fits
    decide +kernel
  exact iff_of_true hFits hFits'

/-- The order of creation may decide: `a` is moved to `a/b` while `a/c` and `a/b/c` have rows.
If the row of `a/b/c` is the older one, it has gone to `a/b/b/c` when `a/c` takes its place; if
it is the younger one, `a/c` finds its place taken, and the move fails. -/
theorem not_always_alike :
    ¬ ∀ (t u : Table) (c : Call) (supply : Supply), t.Reachable → u.Reachable →
        (∀ r, r ∈ t ↔ r ∈ u) → c.EndsAlike t u true supply := by
  intro hAll
  let i := (Supply.ofSeed 0).draw 0
  let j := (Supply.ofSeed 0).draw 1
  let made (c d : Call) : Table :=
    (d.action.on (c.action.on [] true (.ofSeed 1)).2.1 true (.ofSeed 1)).2.1
  let t := made (.insert ['a', '/', 'c'] (some i)) (.insert ['a', '/', 'b', '/', 'c'] (some j))
  let u := made (.insert ['a', '/', 'b', '/', 'c'] (some j)) (.insert ['a', '/', 'c'] (some i))
  have ht : t.Reachable := .call _ _ _ (by decide) (.call _ _ _ (by decide) .empty)
  have hu : u.Reachable := .call _ _ _ (by decide) (.call _ _ _ (by decide) .empty)
  have hPerm : t.Perm u := by decide +kernel
  have hFails : ((Call.move ['a'] ['a', '/', 'b'] true).action.on t true
      (.ofSeed 2)).1.toBool = false := by
    decide +kernel
  have hSucceeds : ((Call.move ['a'] ['a', '/', 'b'] true).action.on u true
      (.ofSeed 2)).1.toBool = true := by
    decide +kernel
  have hAlike := hAll t u (.move ['a'] ['a', '/', 'b'] true) (.ofSeed 2) ht hu
    fun _ => hPerm.mem_iff
  rw [hAlike.1, hSucceeds] at hFails
  cases hFails

end Table.Reachable

end PathRegistry
