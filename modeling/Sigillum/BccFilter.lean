import Sigillum.BlindCopies

/-! # Stripping in place

`stripBcc` writes into the slice it reads from.  `stripBcc_filters` says that
this is safe and what comes of it: the fields whose first line is not that of a
Bcc or Resent-Bcc field, and everything from the first empty line on.

For the accesses to the buffer the loop is run once more with a log of them
(`stripLogged`), byte by byte; `stripBccLogged_fst` says that the log changes
nothing else.
-/
namespace Sigillum
open Runes Bytes HeaderBlock

/-- The header without its blind copies, and the rest of the message: fields are
dropped with their continuation lines; lines that continue nothing stay. -/
def withoutBcc (U : Unicode) (raw : Bytes) : Bytes :=
  let (lead, fs) := group (headerLines raw)
  (lead ++ (fs.filter fun f => !isBccField U f.first).flatMap RawField.lines).flatten ++
    (afterHeader raw).flatten

/-! ## Accesses -/

/-- An access to one byte of the buffer, by its offset. -/
inductive Access where
  | read (k : Nat)
  | write (k : Nat)
  deriving DecidableEq, Repr

/-- Reading from `i` up to `j`. -/
def scanned (i j : Nat) : List Access := (List.range' i (j - i)).map .read

/-- `copy` of `len` bytes from `i` to `n`, front to back. -/
def copied (n i : Nat) : Nat → List Access
  | 0 => []
  | len + 1 => .read i :: .write n :: copied (n + 1) (i + 1) len

section Logged
variable (U : Unicode)

/-- `stripLoop` with the accesses it makes. -/
def stripLogged (stop : Nat) (buf : Bytes) (i n : Nat) (skipping : Bool) :
    (Bytes × Nat) × List Access :=
  if i < stop then
    let line := slice buf i (nextLine buf i stop)
    let skipping := if isContinuation line then skipping else isBccField U line
    if skipping then
      let (r, log) := stripLogged stop buf (nextLine buf i stop) n skipping
      (r, scanned i (nextLine buf i stop) ++ log)
    else
      let (r, log) := stripLogged stop (overwrite buf n line) (nextLine buf i stop)
        (n + line.length) skipping
      (r, scanned i (nextLine buf i stop) ++ (copied n i line.length ++ log))
  else ((buf, n), [])
termination_by stop - i
decreasing_by
  all_goals
    have hlt := lt_nextLine buf ‹i < stop›
    omega

/-- `stripBcc` with the accesses after `headerEnd`, which only reads. -/
def stripBccLogged (raw : Bytes) : Bytes × List Access :=
  match headerEnd raw with
  | none => (raw, [])
  | some stop =>
    let ((buf, n), log) := stripLogged U stop raw 0 0 false
    ((overwrite buf n (buf.drop stop)).take (n + (buf.drop stop).length),
      log ++ copied n stop (buf.drop stop).length)

end Logged

/-- No byte is read after it has been written. -/
def Fresh (log : List Access) : Prop := log.Pairwise fun x y => ∀ k, x = .write k → y ≠ .read k

def ReadsFrom (m : Nat) (log : List Access) : Prop := ∀ k, .read k ∈ log → m ≤ k

def WritesBelow (m : Nat) (log : List Access) : Prop := ∀ k, .write k ∈ log → k < m

section Accesses
variable {log log' : List Access} {m i n : Nat}

theorem Fresh.append (h : Fresh log) (h' : Fresh log') (hw : WritesBelow m log)
    (hr : ReadsFrom m log') : Fresh (log ++ log') := by
  refine List.pairwise_append.mpr ⟨h, h', ?_⟩
  rintro x hx y hy k rfl rfl
  have hlt := hw k hx
  have hle := hr k hy
  omega

theorem ReadsFrom.append (h : ReadsFrom m log) (h' : ReadsFrom m log') :
    ReadsFrom m (log ++ log') :=
  fun k hk => (List.mem_append.mp hk).elim (h k) (h' k)

theorem ReadsFrom.mono {m' : Nat} (h : ReadsFrom m' log) (hle : m ≤ m') : ReadsFrom m log :=
  fun k hk => hle.trans (h k hk)

theorem WritesBelow.append (h : WritesBelow m log) (h' : WritesBelow m log') :
    WritesBelow m (log ++ log') :=
  fun k hk => (List.mem_append.mp hk).elim (h k) (h' k)

theorem WritesBelow.mono {m' : Nat} (h : WritesBelow m log) (hle : m ≤ m') : WritesBelow m' log :=
  fun k hk => (h k hk).trans_le hle

theorem readsFrom_scanned (i j : Nat) : ReadsFrom i (scanned i j) := by
  intro k hk
  obtain ⟨k', hk', he⟩ := List.mem_map.mp hk
  obtain rfl := Access.read.inj he
  exact (List.mem_range'_1.mp hk').1

theorem writesBelow_scanned (m i j : Nat) : WritesBelow m (scanned i j) := by
  intro k hk
  obtain ⟨k', -, he⟩ := List.mem_map.mp hk
  cases he

theorem fresh_scanned (i j : Nat) : Fresh (scanned i j) := by
  refine List.pairwise_map.mpr (List.pairwise_of_forall fun a b k he => ?_)
  cases he

theorem readsFrom_copied (n i len : Nat) : ReadsFrom i (copied n i len) := by
  induction len generalizing n i with
  | zero => exact fun k hk => absurd hk List.not_mem_nil
  | succ len ih =>
    intro k hk
    rcases List.mem_cons.mp hk with he | hk
    · rw [Access.read.inj he]
    · rcases List.mem_cons.mp hk with he | hk
      · cases he
      · exact Nat.le_of_succ_le (ih (n + 1) (i + 1) k hk)

theorem writesBelow_copied (n i len : Nat) : WritesBelow (n + len) (copied n i len) := by
  induction len generalizing n i with
  | zero => exact fun k hk => absurd hk List.not_mem_nil
  | succ len ih =>
    intro k hk
    rcases List.mem_cons.mp hk with he | hk
    · cases he
    · rcases List.mem_cons.mp hk with he | hk
      · rw [Access.write.inj he]
        omega
      · have := ih (n + 1) (i + 1) k hk
        omega

/-- Copying towards the front overwrites nothing that is still to be copied. -/
theorem fresh_copied (h : n ≤ i) (len : Nat) : Fresh (copied n i len) := by
  induction len generalizing n i with
  | zero => exact List.Pairwise.nil
  | succ len ih =>
    have hreads := readsFrom_copied (n + 1) (i + 1) len
    refine List.pairwise_cons.mpr ⟨?_, List.pairwise_cons.mpr ⟨?_, ih ?_⟩⟩
    · intro y _ k he
      cases he
    · rintro y hy k he rfl
      have := hreads k hy
      rw [← Access.write.inj he] at this
      omega
    · omega

end Accesses

/-! ## The loop with its log -/

section Loop
variable {U : Unicode}

theorem stripLogged_fst (stop : Nat) (buf : Bytes) (i n : Nat) (skipping : Bool) :
    (stripLogged U stop buf i n skipping).1 = stripLoop U stop buf i n skipping := by
  induction hk : stop - i using Nat.strong_induction_on generalizing buf i n skipping with
  | _ k ih =>
    rw [stripLogged, stripLoop]
    split
    · rename_i hlt
      have hnext := lt_nextLine buf hlt
      dsimp only
      generalize (if isContinuation (slice buf i (nextLine buf i stop)) then skipping
        else isBccField U (slice buf i (nextLine buf i stop))) = skipping'
      cases skipping' with
      | true => exact ih _ (by omega) _ _ _ _ rfl
      | false => exact ih _ (by omega) _ _ _ _ rfl
    · rfl

theorem stripBccLogged_fst (raw : Bytes) : (stripBccLogged U raw).1 = stripBcc U raw := by
  unfold stripBccLogged stripBcc
  cases headerEnd raw with
  | none => rfl
  | some stop => simp only [← stripLogged_fst]

theorem nextLine_le (buf : Bytes) (i stop : Nat) : nextLine buf i stop ≤ stop := by
  unfold nextLine
  split
  · rename_i j hj
    have hlt := indexByte_lt hj
    rw [slice, List.length_drop, List.length_take] at hlt
    omega
  · exact Nat.le_refl _

/-- What the loop does to the buffer, from reading at `i` and writing at `n` on:
it writes behind where it reads, and never past the header. -/
structure InPlace (stop i n : Nat) (result : (Bytes × Nat) × List Access) : Prop where
  fresh : Fresh result.2
  reads : ReadsFrom i result.2
  writes : WritesBelow result.1.2 result.2
  le : n ≤ result.1.2
  le_stop : result.1.2 ≤ stop

/-- A round that drops its line only reads it. -/
theorem InPlace.skip {stop i next n : Nat} {result : (Bytes × Nat) × List Access}
    (h : InPlace stop next n result) (hi : i ≤ next) :
    InPlace stop i n (result.1, scanned i next ++ result.2) where
  fresh := (fresh_scanned _ _).append h.fresh (writesBelow_scanned _ _ _) h.reads
  reads := (readsFrom_scanned _ _).append (h.reads.mono hi)
  writes := (writesBelow_scanned _ _ _).append h.writes
  le := h.le
  le_stop := h.le_stop

/-- A round that keeps its line copies it from `i` to `n`. -/
theorem InPlace.keep {stop i next n len : Nat} {result : (Bytes × Nat) × List Access}
    (h : InPlace stop next (n + len) result) (hn : n ≤ i) (hlen : i + len ≤ next) :
    InPlace stop i n (result.1, scanned i next ++ (copied n i len ++ result.2)) := by
  have hcopied := writesBelow_copied n i len
  have hreads := (readsFrom_copied n i len).append (h.reads.mono (m := i) (by omega))
  have hfresh := (fresh_copied hn len).append h.fresh (hcopied.mono (by omega)) h.reads
  exact
    { fresh := (fresh_scanned _ _).append hfresh (writesBelow_scanned i _ _) hreads
      reads := (readsFrom_scanned _ _).append hreads
      writes := (writesBelow_scanned _ _ _).append ((hcopied.mono h.le).append h.writes)
      le := Nat.le_trans (Nat.le_add_right n len) h.le
      le_stop := h.le_stop }

theorem inPlace_stripLogged {stop : Nat} {buf : Bytes} {i n : Nat} (skipping : Bool) (hn : n ≤ i)
    (hi : i ≤ stop) : InPlace stop i n (stripLogged U stop buf i n skipping) := by
  -- over what is left of the header; `n ≤ i` is kept, as a line is as long where it goes
  induction hk : stop - i using Nat.strong_induction_on generalizing buf i n skipping with
  | _ k ih =>
    rw [stripLogged]
    split
    · rename_i hlt
      have hnext := lt_nextLine buf hlt
      have hstop := nextLine_le buf i stop
      have hline : (slice buf i (nextLine buf i stop)).length ≤ nextLine buf i stop - i := by
        simp only [slice, List.length_drop, List.length_take]
        omega
      dsimp only
      generalize (if isContinuation (slice buf i (nextLine buf i stop)) then skipping
        else isBccField U (slice buf i (nextLine buf i stop))) = skipping'
      cases skipping' with
      | true => exact (ih _ (by omega) true (by omega) hstop rfl).skip hnext.le
      | false => exact (ih _ (by omega) false (by omega) hstop rfl).keep hn (by omega)
    · exact ⟨List.Pairwise.nil, fun k hk => absurd hk List.not_mem_nil,
        fun k hk => absurd hk List.not_mem_nil, Nat.le_refl _, hn.trans hi⟩

/-- **No byte is read after it has been overwritten.** -/
theorem fresh_stripBccLogged (raw : Bytes) : Fresh (stripBccLogged U raw).2 := by
  unfold stripBccLogged
  cases headerEnd raw with
  | none => exact List.Pairwise.nil
  | some stop =>
    have h : InPlace stop 0 0 (stripLogged U stop raw 0 0 false) :=
      inPlace_stripLogged false (Nat.le_refl 0) (Nat.zero_le _)
    exact h.fresh.append (fresh_copied h.le_stop _) h.writes
      ((readsFrom_copied _ _ _).mono h.le_stop)

/-! ## The fields kept, once and again -/

theorem keptLines_keptLines (skipping : Bool) (lines : List Bytes) :
    keptLines U false (keptLines U skipping lines) = keptLines U skipping lines := by
  induction lines generalizing skipping with
  | nil => rfl
  | cons line lines ih =>
    rw [keptLines]
    cases hskip : (if isContinuation line then skipping else isBccField U line) with
    | true => exact ih true
    | false =>
      -- if the line continues another one, that was kept too
      have hkept : (if isContinuation line then false else isBccField U line) = false := by
        split at hskip
        · rename_i hcont
          rw [if_pos hcont]
        · rename_i hcont
          rw [if_neg hcont, hskip]
      simp only [Bool.false_eq_true, if_false]
      rw [keptLines, hkept]
      simp only [Bool.false_eq_true, if_false, ih false]

theorem keptLines_eq_filter (lines : List Bytes) :
    keptLines U false lines = (group lines).1 ++
      ((group lines).2.filter fun f => !isBccField U f.first).flatMap RawField.lines := by
  have hgroup := group_lines (keptLines U false lines)
  rw [group_keptLines] at hgroup
  exact hgroup.symm

theorem stripBcc_eq_withoutBcc {raw : Bytes} (h : hasBlank raw = true) :
    stripBcc U raw = withoutBcc U raw := by
  rw [stripBcc_eq h, keptLines_eq_filter]
  rfl

theorem stripBcc_stripBcc (raw : Bytes) : stripBcc U (stripBcc U raw) = stripBcc U raw := by
  cases h : hasBlank raw with
  | false => rw [stripBcc_of_no_blank h, stripBcc_of_no_blank h]
  | true =>
    rw [stripBcc_eq (hasBlank_stripBcc h), headerLines_stripBcc h, afterHeader_stripBcc h,
      keptLines_keptLines, stripBcc_eq h]

end Loop

/-- **Stripping in place is a filter of fields.**  Where an empty line ends the
header, the message comes back without its Bcc and Resent-Bcc fields, told by their first
lines, and otherwise as it was; no byte is read after it has been overwritten; stripping
again changes nothing; and a message without an empty line comes back as it is. -/
theorem stripBcc_filters (U : Unicode) (raw : Bytes) :
    (hasBlank raw = true → stripBcc U raw = withoutBcc U raw) ∧
      (∀ line, isBccField U line = true ↔ NamesBcc line) ∧
      (∃ log, stripBccLogged U raw = (stripBcc U raw, log) ∧ Fresh log) ∧
      stripBcc U (stripBcc U raw) = stripBcc U raw ∧
      (hasBlank raw = false → stripBcc U raw = raw) :=
  ⟨stripBcc_eq_withoutBcc, isBccField_iff,
    ⟨(stripBccLogged U raw).2, Prod.ext (stripBccLogged_fst raw) rfl, fresh_stripBccLogged raw⟩,
    stripBcc_stripBcc raw, stripBcc_of_no_blank⟩

end Sigillum
