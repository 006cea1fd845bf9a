import Pipework.Proofs.Outcome
import Pipework.Proofs.Yaml.Chars
import Pipework.Yaml.Scan

/-!
# What a text makes of the scanner

A scanner outside brackets is known by the tokens it has, the columns of the blocks it is in, whether
a key may begin, and the text that is left with the column where it stands. `Gives` says which tokens
come out in the end. Its rules go backwards: what a text gives is what the rest of it gives behind
the tokens of its first part. There is one rule for each thing that a printed document is made of.
-/

namespace Pipework.Yaml

namespace Scanner

/-- The scanner outside brackets, as far as what comes next depends on it. The columns are those of
the blocks, the innermost first. -/
structure Stands (s : Scanner) (toks : List Token) (blocks : List Int) (allowed : Bool)
    (column : Nat) (text : List Char) : Prop where
  tokens : s.tokens = toks
  blocks : s.indent :: s.outerIndents = blocks
  outside : s.outerStarts = []
  allowed : s.keyAllowed = allowed
  column : s.cursor.mark.column = column
  text : s.cursor.rest = text

/-- A key may have begun on this line or before it, but there did not have to be one. -/
def Pending (s : Scanner) : Prop :=
  ∀ k, s.keyStart = some k → k.required = false ∧ k.mark.line ≤ s.cursor.mark.line

/-- A key may have begun before this line, but there did not have to be one. -/
def Settled (s : Scanner) : Prop :=
  ∀ k, s.keyStart = some k → k.required = false ∧ k.mark.line < s.cursor.mark.line

/-- With more than so many tokens to read, the scanner comes to an end with these. -/
def Runs (s : Scanner) (count : Nat) (out : List Token) : Prop :=
  ∀ fuel, count < fuel → ∃ last, s.run fuel = .ok last ∧ last.tokens = out

/-- The text gives these tokens in the end. -/
def Gives (toks : List Token) (blocks : List Int) (allowed : Bool) (column : Nat)
    (text : List Char) (out : List Token) : Prop :=
  ∀ s : Scanner, s.Stands toks blocks allowed column text → s.Settled → s.Runs text.length out

variable {s s' : Scanner} {toks toks' out : List Token} {x : Int} {blocks blocks' : List Int}
  {allowed allowed' : Bool} {column column' count : Nat} {c : Char} {cs text : List Char}

theorem Stands.inFlow (stands : s.Stands toks blocks allowed column text) : s.inFlow = false := by
  rw [Scanner.inFlow, stands.outside]
  rfl

theorem Stands.indent (stands : s.Stands toks (x :: blocks) allowed column text) : s.indent = x :=
  (List.cons.inj stands.blocks).1

theorem Stands.outerIndents (stands : s.Stands toks (x :: blocks) allowed column text) :
    s.outerIndents = blocks :=
  (List.cons.inj stands.blocks).2

/-- Where no key is open, nothing is left to settle. -/
theorem settled_of_none (none : s.keyStart = none) : s.Settled := by
  intro k some
  rw [none] at some
  cases some

/-- More steps do not change what a scan that has ended gives. -/
theorem Runs.mono (runs : s.Runs count out) {more : Nat} (le : count ≤ more) : s.Runs more out :=
  fun fuel enough => runs fuel (Nat.lt_of_le_of_lt le enough)

/-- What a text gives is what the scanner comes to that stands in front of it. -/
theorem Gives.runs (gives : Gives toks blocks allowed column text out)
    (stands : s.Stands toks blocks allowed column text) (settled : s.Settled)
    (le : text.length ≤ count) : s.Runs count out :=
  (gives s stands settled).mono le

/-- The tokens behind a step are those in the end. -/
theorem runs_of_step (step : s.step = .ok (.inr s')) (runs : s'.Runs count out)
    {more : Nat} (less : count < more) : s.Runs more out := by
  intro fuel enough
  obtain ⟨fuel, rfl⟩ := Nat.exists_eq_add_one_of_ne_zero (Nat.ne_zero_of_lt enough)
  obtain ⟨last, run, tokens⟩ := runs fuel (by omega)
  refine ⟨last, ?_, tokens⟩
  rw [Scanner.run, step]
  exact run

/-- Two scanners that take the same step come to the same. -/
theorem runs_of_same_step (step : s.step = s'.step) (runs : s'.Runs count out) :
    s.Runs count out := by
  intro fuel enough
  obtain ⟨fuel, rfl⟩ := Nat.exists_eq_add_one_of_ne_zero (Nat.ne_zero_of_lt enough)
  obtain ⟨last, run, tokens⟩ := runs _ enough
  refine ⟨last, ?_, tokens⟩
  rw [Scanner.run, step, ← Scanner.run]
  exact run

/-- A token that is added comes last. -/
theorem tokens_emit (t : Token) (s : Scanner) : (s.emit t).tokens = s.tokens ++ [t] := by
  simp only [Scanner.tokens, emit, List.reverse_cons, List.flatMap_append, List.flatMap_cons,
    List.flatMap_nil, List.nil_append, List.append_nil]

/-! ## Blanks and line ends -/

/-- A scanner that is moved over what means nothing takes the step that it would have taken. -/
theorem step_of_trivia (cursor : Cursor)
    (same : skipTrivia s.inFlow false allowed cursor.mark cursor.rest =
      skipTrivia s.inFlow false s.keyAllowed s.cursor.mark s.cursor.rest) :
    s.step = Scanner.step { s with cursor, keyAllowed := allowed } := by
  have same' : skipTrivia (Scanner.inFlow { s with cursor, keyAllowed := allowed }) false allowed
      cursor.mark cursor.rest =
      skipTrivia s.inFlow false s.keyAllowed s.cursor.mark s.cursor.rest := same
  simp only [step, same']

theorem gives_blank (more : Gives toks blocks allowed (column + 1) text out) :
    Gives toks blocks allowed column (' ' :: text) out := by
  intro s stands settled
  have moved : s.cursor.mark.next ' ' =
      ⟨s.cursor.mark.index + 1, s.cursor.mark.line, s.cursor.mark.column + 1⟩ :=
    Mark.next_of_not_break rfl
  have runs := (more { s with cursor := ⟨s.cursor.mark.next ' ', text⟩ }
    ⟨stands.tokens, stands.blocks, stands.outside, stands.allowed,
      by rw [moved]; exact congrArg (· + 1) stands.column, rfl⟩
    fun k some => by rw [moved]; exact settled k some).mono (Nat.le_succ _)
  refine runs_of_same_step (step_of_trivia ⟨s.cursor.mark.next ' ', text⟩ ?_) runs
  rw [stands.text]
  rfl

/-- Blanks between tokens only move the column. -/
theorem gives_blanks {n : Nat} (more : Gives toks blocks allowed (column + n) text out) :
    Gives toks blocks allowed column (List.replicate n ' ' ++ text) out := by
  induction n generalizing column with
  | zero => exact more
  | succ n ih =>
    refine gives_blank (ih ?_)
    rwa [Nat.add_assoc, Nat.add_comm 1 n]

/-- At the end of a line nothing that is pending can become a key any more. -/
theorem runs_newLine (stands : s.Stands toks blocks allowed column ('\n' :: text))
    (pending : s.Pending) (more : Gives toks blocks true 0 text out) :
    s.Runs ('\n' :: text).length out := by
  have moved : s.cursor.mark.next '\n' = ⟨s.cursor.mark.index + 1, s.cursor.mark.line + 1, 0⟩ :=
    Mark.next_of_break rfl
  have runs := (more { s with cursor := ⟨s.cursor.mark.next '\n', text⟩, keyAllowed := true }
    ⟨stands.tokens, stands.blocks, stands.outside, rfl, by rw [moved], rfl⟩
    fun k some => by
      obtain ⟨optional, earlier⟩ := pending k some
      rw [moved]
      exact ⟨optional, Nat.lt_succ_of_le earlier⟩).mono (Nat.le_succ _)
  refine runs_of_same_step (step_of_trivia ⟨s.cursor.mark.next '\n', text⟩ ?_) runs
  rw [stands.text, stands.inFlow, skipTrivia, if_pos (show isBreak '\n' = true from rfl),
    Bool.not_false, Bool.or_true]

/-- The end of a line moves to its start, where a key may stand again. -/
theorem gives_newLine (more : Gives toks blocks true 0 text out) :
    Gives toks blocks allowed column ('\n' :: text) out := by
  intro s stands settled
  refine runs_newLine stands (fun k some => ?_) more
  obtain ⟨optional, earlier⟩ := settled k some
  exact ⟨optional, Nat.le_of_lt earlier⟩

/-! ## Steps -/

theorem skipTrivia_visible {flow : Bool} {mark : Mark} (visible : isVisible c = true) :
    skipTrivia flow false allowed mark (c :: cs) = (allowed, ⟨mark, c :: cs⟩) := by
  obtain ⟨notBreak, notBlank, notHash, notMark⟩ := isVisible_iff.mp visible
  have notSpace : c ≠ ' ' := ne_of_not_class notBlank rfl
  have notTab : c ≠ '\t' := ne_of_not_class notBlank rfl
  simp only [skipTrivia, notBreak, beq_false_of_ne notHash, beq_false_of_ne notSpace,
    beq_false_of_ne notTab, beq_false_of_ne notMark, Bool.false_eq_true, Bool.or_self,
    Bool.false_and, ↓reduceIte]

/-- What is left of a place where no key had to be. -/
theorem keepFresh_settled (settled : s.Settled) : keepFresh s.cursor.mark s.keyStart = .ok none := by
  cases start : s.keyStart with
  | none => rfl
  | some k =>
    obtain ⟨optional, earlier⟩ := settled k start
    simp only [keepFresh, isStale, earlier, decide_true, Bool.true_or, Bool.not_true, optional,
      Bool.false_eq_true, ↓reduceIte]

/-- A settled scanner drops the key that may have started, and no error is due for it. -/
theorem dropStale_settled (outside : s.outerStarts = []) (settled : s.Settled) :
    s.dropStale = .ok { s with keyStart := none } := by
  simp only [dropStale, keepFresh_settled settled, outside]
  rfl

/-- The scanner at a visible character reads a token there, with the places for keys that are left. -/
theorem step_of_dropStale (text : s.cursor.rest = c :: cs) (visible : isVisible c = true)
    (kept : s.dropStale = .ok s') :
    s.step = (s'.closeBlocks s.cursor.mark.column).takeToken c cs >>= fun next =>
      .ok (.inr next) := by
  have cursor : (⟨s.cursor.mark, c :: cs⟩ : Cursor) = s.cursor := by rw [← text]
  simp only [step, text, skipTrivia_visible visible, cursor]
  rw [kept]
  rfl

theorem step_visible (stands : s.Stands toks blocks allowed column (c :: cs)) (settled : s.Settled)
    (visible : isVisible c = true) :
    s.step = (Scanner.closeBlocks column { s with keyStart := none }).takeToken c cs >>=
      fun next => .ok (.inr next) := by
  rw [step_of_dropStale stands.text visible (dropStale_settled stands.outside settled),
    stands.column]

/-- The scanner at the end of the text leaves everything. -/
theorem step_end (stands : s.Stands toks blocks allowed column []) (settled : s.Settled) :
    s.step = Scanner.leaveAll { s with keyStart := none } >>= fun last => .ok (.inl last) := by
  have cursor : (⟨s.cursor.mark, []⟩ : Cursor) = s.cursor := by rw [← stands.text]
  simp only [step, stands.text, skipTrivia, cursor]
  rw [dropStale_settled stands.outside settled]
  rfl

/-! ## The ends of blocks -/

/-- No block is left that is not deeper than the column. -/
theorem closeBlocks_of_le {col : Int} (le : s.indent ≤ col) : s.closeBlocks col = s := by
  have leave : leaveBlocks col s.indent s.outerIndents = (0, s.indent, s.outerIndents) := by
    cases s.outerIndents with
    | nil => rfl
    | cons i outer => rw [leaveBlocks, if_neg (Int.not_lt.mpr le)]
  unfold closeBlocks
  split
  · rfl
  · rw [leave]
    rfl

/-- The scanner behind the end of the innermost block. -/
def endBlock (i : Int) (outer : List Int) (s : Scanner) : Scanner :=
  { s.emit .blockEnd with indent := i, outerIndents := outer }

/-- A block that is deeper than the column is left first. -/
theorem closeBlocks_deeper {col i : Int} {outer : List Int} (outside : s.outerStarts = [])
    (around : s.outerIndents = i :: outer) (deeper : col < s.indent) :
    s.closeBlocks col = (s.endBlock i outer).closeBlocks col := by
  have flow : s.inFlow = false := by
    rw [inFlow, outside]
    rfl
  have flow' : (s.endBlock i outer).inFlow = false := flow
  simp only [closeBlocks, flow, flow', around, leaveBlocks, if_pos deeper, Bool.false_eq_true,
    ↓reduceIte, List.replicate_succ', List.append_assoc, List.singleton_append]
  rfl

/-- The column up to which blocks are left: that of what is there, or in front of all at the end. -/
def closing (column : Nat) : List Char → Int
  | [] => -1
  | _ :: _ => column

/-- A block ends in front of what is not as deep. -/
theorem gives_close {i : Int} {outer : List Int} (visible : ∀ c ∈ text.head?, isVisible c = true)
    (shallow : closing column text < x)
    (more : Gives (toks ++ [.blockEnd]) (i :: outer) allowed column text out) :
    Gives toks (x :: i :: outer) allowed column text out := by
  intro s stands settled
  have around : s.outerIndents = i :: outer := stands.outerIndents
  have deeper : closing column text < s.indent := by rwa [stands.indent]
  have ended : (s.endBlock i outer).Stands (toks ++ [.blockEnd]) (i :: outer) allowed column text := by
    refine ⟨?_, rfl, stands.outside, stands.allowed, stands.column, stands.text⟩
    rw [← stands.tokens]
    exact tokens_emit .blockEnd s
  have settled' : (s.endBlock i outer).Settled := settled
  refine runs_of_same_step ?_ (more _ ended settled')
  cases text with
  | nil =>
    have left : closeBlocks (-1) { s with keyStart := none } = _ :=
      closeBlocks_deeper stands.outside around deeper
    rw [step_end stands settled, step_end ended settled', leaveAll, left]
    rfl
  | cons c cs =>
    have visible := visible c rfl
    have left : closeBlocks column { s with keyStart := none } = _ :=
      closeBlocks_deeper stands.outside around deeper
    rw [step_visible stands settled visible, step_visible ended settled' visible, left]
    rfl

/-- At the end of the text, with all blocks ended, the tokens are complete. -/
theorem gives_end : Gives toks [-1] allowed column [] toks := by
  intro s stands settled fuel enough
  obtain ⟨fuel, rfl⟩ := Nat.exists_eq_add_one_of_ne_zero (Nat.ne_zero_of_lt enough)
  have left : Scanner.leaveAll { s with keyStart := none } =
      .ok { s with keyStart := none, keyAllowed := false } := by
    have le : s.indent ≤ -1 := Int.le_of_eq stands.indent
    rw [leaveAll, closeBlocks_of_le (s := { s with keyStart := none }) le]
    rfl
  refine ⟨{ s with keyStart := none, keyAllowed := false }, ?_, stands.tokens⟩
  rw [Scanner.run, step_end stands settled, left]
  rfl

/-! ## Marks of items, keys and values -/

/-- What stands at a column goes into a block there: the innermost, or a new one that is deeper. -/
inductive Opens (start : Token) (column : Nat) : (toks : List Token) → (blocks : List Int) →
    (toks' : List Token) → (blocks' : List Int) → Prop
  | inside {toks : List Token} {blocks : List Int} :
      Opens start column toks (column :: blocks) toks (column :: blocks)
  | new {toks : List Token} {x : Int} {blocks : List Int} (deeper : x < column) :
      Opens start column toks (x :: blocks) (toks ++ [start]) (column :: x :: blocks)

/-- No block has to end in front of what goes into one. -/
theorem Opens.le {start : Token} (opens : Opens start column toks blocks toks' blocks')
    (stands : s.Stands toks blocks allowed column text) : s.indent ≤ column := by
  cases opens with
  | inside => exact Int.le_of_eq stands.indent
  | new deeper =>
    rw [stands.indent]
    exact Int.le_of_lt deeper

/-- The scanner where a key may begin goes into the block. -/
theorem stands_openBlock {start : Token} (opens : Opens start column toks blocks toks' blocks')
    (stands : s.Stands toks blocks allowed column text) :
    (s.openBlock start).Stands toks' blocks' allowed column text ∧
      (s.openBlock start).keyStart = s.keyStart := by
  have indent := opens.le stands
  cases opens with
  | inside =>
    rw [openBlock, if_neg (by rw [stands.indent, stands.column]; exact Int.lt_irrefl _)]
    exact ⟨stands, rfl⟩
  | new deeper =>
    rw [openBlock, if_pos (by rwa [stands.indent, stands.column])]
    refine ⟨⟨?_, ?_, stands.outside, stands.allowed, stands.column, stands.text⟩, rfl⟩
    · rw [← stands.tokens]
      exact tokens_emit start s
    · show (s.cursor.mark.column : Int) :: s.indent :: s.outerIndents = _
      rw [stands.column, stands.blocks]

theorem skip_one (text : s.cursor.rest = c :: cs) :
    s.cursor.skip 1 = ⟨s.cursor.mark.next c, cs⟩ := by
  rw [show s.cursor = ⟨s.cursor.mark, c :: cs⟩ from by rw [← text]]
  rfl

/-- The scanner behind a token of one character. -/
theorem stands_take {t : Token} (stands : s.Stands toks blocks allowed column (c :: text))
    (inside : isBreak c = false) :
    (s.take 1 t).Stands (toks ++ [t]) blocks allowed (column + 1) text := by
  have skipped : s.cursor.skip 1 = ⟨s.cursor.mark.next c, text⟩ := skip_one stands.text
  refine ⟨?_, stands.blocks, stands.outside, stands.allowed, ?_, ?_⟩
  · rw [← stands.tokens]
    exact tokens_emit t s
  · show (s.cursor.skip 1).mark.column = _
    rw [skipped, Mark.next_of_not_break inside, ← stands.column]
  · show (s.cursor.skip 1).rest = _
    rw [skipped]

/-- A visible character is read by the token that it begins. -/
theorem gives_of_takeToken (visible : isVisible c = true)
    (low : ∀ s : Scanner, s.Stands toks blocks allowed column (c :: cs) → s.indent ≤ column)
    (takes : ∀ s : Scanner, s.Stands toks blocks allowed column (c :: cs) → s.keyStart = none →
      ∃ next, s.takeToken c cs = .ok next ∧ next.Runs cs.length out) :
    Gives toks blocks allowed column (c :: cs) out := by
  intro s stands settled
  have low := low s stands
  obtain ⟨next, taken, runs⟩ := takes { s with keyStart := none }
    ⟨stands.tokens, stands.blocks, stands.outside, stands.allowed, stands.column, stands.text⟩ rfl
  refine runs_of_step ?_ runs (Nat.lt_succ_self _)
  rw [step_visible stands settled visible,
    closeBlocks_of_le (s := { s with keyStart := none }) low, taken]
  rfl

/-- What a mark of one character does where it may open a block. -/
theorem stands_openEntry {start : Token} {fault : Fault}
    (opens : Opens start column toks blocks toks' blocks')
    (stands : s.Stands toks blocks true column text) (unkeyed : s.keyStart = none) :
    ∃ next, s.openEntry start fault = .ok next ∧ next.dropKey = .ok next ∧
      next.Stands toks' blocks' true column text ∧ next.keyStart = none := by
  obtain ⟨opened, same⟩ := stands_openBlock opens stands
  have none : (s.openBlock start).keyStart = .none := same.trans unkeyed
  refine ⟨s.openBlock start, ?_, ?_, opened, none⟩
  · simp only [openEntry, stands.inFlow, stands.allowed, Bool.false_eq_true, ↓reduceIte]
  · simp only [dropKey, none, Option.any_none, Bool.false_eq_true, ↓reduceIte]
    rw [← none]

/-- A dash in front of a blank begins an item. -/
theorem takeToken_item (space : atSpace cs = true) : s.takeToken '-' cs = s.takeItem := by
  have noStart : isDocumentMark '-' ('-' :: cs) = false := isDocumentMark_of_space rfl space
  have noEnd : isDocumentMark '.' ('-' :: cs) = false := isDocumentMark_of_ne (by decide)
  simp [takeToken, noStart, noEnd, space]

/-- A question mark in front of a blank begins a key. -/
theorem takeToken_key (space : atSpace cs = true) : s.takeToken '?' cs = s.takeKey := by
  have noStart : isDocumentMark '-' ('?' :: cs) = false := isDocumentMark_of_ne (by decide)
  have noEnd : isDocumentMark '.' ('?' :: cs) = false := isDocumentMark_of_ne (by decide)
  simp [takeToken, noStart, noEnd, space]

/-- A colon in front of a blank begins a value. -/
theorem takeToken_value (space : atSpace cs = true) : s.takeToken ':' cs = s.takeValue := by
  have noStart : isDocumentMark '-' (':' :: cs) = false := isDocumentMark_of_ne (by decide)
  have noEnd : isDocumentMark '.' (':' :: cs) = false := isDocumentMark_of_ne (by decide)
  simp [takeToken, noStart, noEnd, space]

/-- The hyphen of an item. -/
theorem gives_item (opens : Opens .blockSequenceStart column toks blocks toks' blocks')
    (space : atSpace cs = true)
    (more : Gives (toks' ++ [.item]) blocks' true (column + 1) cs out) :
    Gives toks blocks true column ('-' :: cs) out := by
  refine gives_of_takeToken rfl (fun s stands => opens.le stands) fun s stands unkeyed => ?_
  obtain ⟨next, opened, dropped, stands, unkeyed⟩ := stands_openEntry opens stands unkeyed
  have taken := stands_take (t := .item) stands rfl
  refine ⟨_, ?_, more.runs taken (settled_of_none unkeyed) (Nat.le_refl _)⟩
  rw [takeToken_item space, takeItem, opened]
  show (next.dropKey >>= _) = _
  rw [dropped]
  show Except.ok ((next.allowKey true).take 1 .item) = _
  rw [allowKey, ← stands.allowed]

/-- The question mark of a key. -/
theorem gives_keyMark (opens : Opens .blockMappingStart column toks blocks toks' blocks')
    (space : atSpace cs = true)
    (more : Gives (toks' ++ [.key]) blocks' true (column + 1) cs out) :
    Gives toks blocks true column ('?' :: cs) out := by
  refine gives_of_takeToken rfl (fun s stands => opens.le stands) fun s stands unkeyed => ?_
  obtain ⟨next, opened, dropped, stands, unkeyed⟩ := stands_openEntry opens stands unkeyed
  have taken := stands_take (t := .key) stands rfl
  refine ⟨_, ?_, more.runs taken (settled_of_none unkeyed) (Nat.le_refl _)⟩
  rw [takeToken_key space, takeKey, opened]
  show (next.dropKey >>= _) = _
  rw [dropped]
  show Except.ok ((next.allowKey (!next.inFlow)).take 1 .key) = _
  rw [stands.inFlow, Bool.not_false, allowKey, ← stands.allowed]

/-- The colon behind such a key. -/
theorem gives_valueMark (space : atSpace cs = true)
    (more : Gives (toks ++ [.value]) (column :: blocks) true (column + 1) cs out) :
    Gives toks (column :: blocks) true column (':' :: cs) out := by
  have opens : Opens .blockMappingStart column toks (column :: blocks) _ _ := .inside
  refine gives_of_takeToken rfl (fun s stands => opens.le stands) fun s stands unkeyed => ?_
  obtain ⟨next, opened, -, stands, unkeyed'⟩ := stands_openEntry opens stands unkeyed
  have taken := stands_take (t := .value) stands rfl
  refine ⟨_, ?_, more.runs taken (settled_of_none unkeyed') (Nat.le_refl _)⟩
  rw [takeToken_value space, takeValue, unkeyed]
  show (s.openEntry .blockMappingStart .misplacedValue >>= _) = _
  rw [opened]
  show Except.ok ((next.allowKey (!next.inFlow)).take 1 .value) = _
  rw [stands.inFlow, Bool.not_false, allowKey, ← stands.allowed]

end Scanner

end Pipework.Yaml
