import TreeCluster.Proofs.Text.Utf8
import TreeCluster.Replay

/-! # Layouts that read back what they write

A layout is faithful if a value of fewer than `2 ^ 64` bytes is read off the front of its bytes,
whatever follows (`Layout.Faithful`).  Beyond that, the length before a text or a list no longer
fits into its eight bytes.  No value is written without a byte, so that a list is never longer than
its bytes.

All layouts of the library are faithful. -/

namespace TreeCluster.Layout

/-- Values are read back from the front of their bytes. -/
class Faithful (α : Type) [Layout α] : Prop where
  read_write (a : α) (rest : Bytes) :
    (write a).length < 2 ^ 64 → read (write a ++ rest) = .ok (a, rest)
  write_ne_nil (a : α) : write a ≠ []

variable {α β : Type} [Layout α] [Layout β]

theorem decode_write [Faithful α] (a : α) (short : (write a).length < 2 ^ 64) :
    decode (write a) = .ok a := by
  have h := Faithful.read_write a [] short
  rw [List.append_nil] at h
  rw [decode, h]
  rfl

theorem ok_bind {γ δ : Type} (c : γ) (f : γ → Except LayoutError δ) : Except.ok c >>= f = f c :=
  rfl

/-! ### Numbers -/

theorem readWord_little (width : ℕ) {n : ℕ} (h : n < 2 ^ (8 * width)) (rest : Bytes) :
    readWord width (Word.little width n ++ rest) = .ok (n, rest) := by
  have length := Word.length_little width n
  have fits : n < Nat.pow 256 width := by
    rwa [pow_mul] at h
  rw [readWord, if_neg (by simp), List.take_left' length, List.drop_left' length,
    Word.ofLittle_little, Nat.mod_eq_of_lt fits]

theorem little_ne_nil (width n : ℕ) : Word.little (width + 1) n ≠ [] :=
  List.cons_ne_nil _ _

instance : Faithful UInt8 where
  read_write n rest _ := by
    simp [read, write, readWord, Word.ofLittle, Except.map]
  write_ne_nil _ := List.cons_ne_nil _ _

instance : Faithful UInt16 where
  read_write n rest _ := by
    simp only [read, write, readWord_little 2 n.toNat_lt]
    simp [Except.map]
  write_ne_nil _ := little_ne_nil _ _

instance : Faithful Int32 where
  read_write n rest _ := by
    simp only [read, write, readWord_little 4 n.toUInt32.toNat_lt]
    simp [Except.map]
  write_ne_nil _ := little_ne_nil _ _

instance : Faithful Int64 where
  read_write n rest _ := by
    simp only [read, write, readWord_little 8 n.toUInt64.toNat_lt]
    simp [Except.map]
  write_ne_nil _ := little_ne_nil _ _

instance : Faithful Bool where
  read_write b rest _ := by cases b <;> rfl
  write_ne_nil _ := List.cons_ne_nil _ _

/-! ### Composed values -/

instance [Faithful α] : Faithful (Option α) where
  read_write
    | none, rest, _ => rfl
    | some a, rest, short => by
        have h := Faithful.read_write a rest ((Nat.le_succ _).trans_lt short)
        show (read (write a ++ rest)).map (fun (a, rest) => (some a, rest)) = .ok (some a, rest)
        rw [h]
        rfl
  write_ne_nil
    | none => List.cons_ne_nil _ _
    | some _ => List.cons_ne_nil _ _

instance [Faithful α] [Faithful β] : Faithful (α × β) where
  read_write := fun (a, b) rest short => by
    have sum : (write (a, b)).length = (write a).length + (write b).length := List.length_append
    have first := Faithful.read_write a (write b ++ rest) (by omega)
    have second := Faithful.read_write b rest (by omega)
    simp only [read, write, List.append_assoc] at first second ⊢
    rw [first, ok_bind, second]
    rfl
  write_ne_nil := fun (a, _) h => Faithful.write_ne_nil a (List.append_eq_nil_iff.mp h).1

instance : Faithful String where
  read_write s rest short := by
    simp only [write, List.length_append, Word.length_little] at short
    simp only [read, write, List.append_assoc]
    rw [readWord_little 8 (by omega), ok_bind]
    simp only [List.length_append, if_neg (Nat.not_lt.mpr (Nat.le_add_right _ _)),
      List.take_left, List.drop_left, Text.Utf8.decode_encode]
    rfl
  write_ne_nil s h := little_ne_nil 7 _ (List.append_eq_nil_iff.mp h).1

theorem readMany_flatMap [Faithful α] (as : List α) (rest : Bytes)
    (short : (as.flatMap write).length < 2 ^ 64) :
    readMany (as.flatMap write ++ rest) as.length = .ok (as, rest) := by
  induction as with
  | nil => rfl
  | cons a as ih =>
      rw [List.flatMap_cons, List.length_append] at short
      rw [List.flatMap_cons, List.append_assoc, List.length_cons, readMany,
        Faithful.read_write a _ (by omega), ok_bind]
      simp only [ih (by omega), ok_bind]
      rfl

/-- There are no more values in a row than bytes. -/
theorem length_le_flatMap [Faithful α] (as : List α) :
    as.length ≤ (as.flatMap write).length := by
  induction as with
  | nil => exact Nat.zero_le _
  | cons a as ih =>
      have := List.length_pos_of_ne_nil (Faithful.write_ne_nil a)
      rw [List.flatMap_cons, List.length_append, List.length_cons]
      omega

instance [Faithful α] : Faithful (List α) where
  read_write as rest short := by
    have few := length_le_flatMap as
    have values := readMany_flatMap as rest
    simp only [write, read, List.length_append, Word.length_little] at short few values ⊢
    rw [List.append_assoc, readWord_little 8 (by omega), ok_bind]
    exact values (by omega)
  write_ne_nil as h := little_ne_nil 7 _ (List.append_eq_nil_iff.mp h).1

/-! ### Variants -/

/-- A type of plain variants, all of them in the list of the layout. -/
theorem faithful_variants {γ : Type} [DecidableEq γ] [Inhabited γ] {all : List γ}
    (complete : ∀ a, a ∈ all) (few : all.length ≤ 2 ^ 32) : @Faithful γ (variants all) := by
  let _ : Layout γ := variants all
  refine ⟨fun a rest _ => ?_, fun a => little_ne_nil 3 _⟩
  have index : all.idxOf a < all.length := List.idxOf_lt_length_iff.mpr (complete a)
  simp only [read, write, readVariant, writeVariant]
  rw [readWord_little 4 (by omega), ok_bind, if_pos index]
  simp only [pure, Except.pure, Except.map]
  rw [List.getD_eq_getElem _ _ index, List.getElem_idxOf]

instance : Faithful Action :=
  faithful_variants (fun a => by cases a <;> decide) (by decide)

instance : Faithful State :=
  faithful_variants (fun s => by cases s <;> decide) (by decide)

instance : Faithful ReplayAction :=
  faithful_variants (fun a => by cases a <;> decide) (by decide)

/-! ### Records -/

theorem faithful_record {γ : Type} [Layout γ] [Faithful α] (fields : γ → α) (make : α → γ)
    (made : ∀ c, make (fields c) = c) (writes : ∀ c : γ, write c = write (fields c))
    (reads : ∀ input : Bytes,
      (read input : Except LayoutError (γ × Bytes)) =
        (read input).map fun (a, rest) => (make a, rest)) :
    Faithful γ where
  read_write c rest short := by
    rw [writes] at short ⊢
    rw [reads, Faithful.read_write (fields c) rest short]
    simp only [Except.map, made]
  write_ne_nil c := by
    rw [writes]
    exact Faithful.write_ne_nil _

instance : Faithful NodeAddress :=
  faithful_record (fun a => (a.name, a.host, a.port)) (fun (name, host, port) => ⟨name, host, port⟩)
    (fun _ => rfl) (fun _ => rfl) fun _ => rfl

instance : Faithful NodePath :=
  faithful_record NodePath.text NodePath.mk (fun _ => rfl) (fun _ => rfl) fun _ => rfl

instance : Faithful ReplayEntry :=
  faithful_record (fun e => (e.action, e.path)) (fun (action, path) => ⟨action, path⟩)
    (fun _ => rfl) (fun _ => rfl) fun _ => rfl

instance : Faithful ReplayLog :=
  faithful_record ReplayLog.entries ReplayLog.mk (fun _ => rfl) (fun _ => rfl) fun _ => rfl

end TreeCluster.Layout
