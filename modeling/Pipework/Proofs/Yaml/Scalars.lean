import Pipework.Proofs.Yaml.Scanning

/-!
# Scalars and brackets before the scanner

That a scalar was a key shows at the colon behind it: the tokens of a key are put in front of it then.
What a scalar has to be like for that, or for a value, is said once for all styles. `TakesScalar` is
of a text that is followed by something on its line, `TakesLines` of one that goes on to a later line.
Each style shows one of them of its texts, and the rules for keys and values follow.
-/

namespace Pipework.Yaml

namespace Scanner

variable {s s' : Scanner} {toks toks' out : List Token} {x : Int} {blocks blocks' : List Int}
  {allowed allowed' : Bool} {column column' count : Nat} {c : Char} {cs text : List Char}

/-! ## Keys on the line of their values -/

/-- The scanner with a place for a key at the cursor, if there may be one. -/
def saved (s : Scanner) : Scanner :=
  if s.keyAllowed then
    { s with keyStart := some { entry := s.entries.length, mark := s.cursor.mark,
                                required := !s.inFlow && s.indent == (s.cursor.mark.column : Int) } }
  else s

/-- Saving a key notes where it starts and nothing else. -/
theorem saved_eq (s : Scanner) : s.saved = { s with keyStart := s.saved.keyStart } := by
  unfold saved
  split <;> rfl

@[simp] theorem saved_cursor (s : Scanner) : s.saved.cursor = s.cursor := by rw [saved_eq]

@[simp] theorem saved_indent (s : Scanner) : s.saved.indent = s.indent := by rw [saved_eq]

@[simp] theorem saved_outerStarts (s : Scanner) : s.saved.outerStarts = s.outerStarts := by
  rw [saved_eq]

/-- Where no key is open, a key can be saved. -/
theorem saveKey_eq (unkeyed : s.keyStart = none) : s.saveKey = .ok s.saved := by
  unfold saveKey saved
  split
  · simp only [dropKey, unkeyed, Option.any_none, Bool.false_eq_true, ↓reduceIte]
    rfl
  · rfl

/-- The text in front of this rest is taken as a scalar, up to the rest. -/
def TakesScalar (text : List Char) (style : ScalarStyle) (content : String) (rest : List Char) :
    Prop :=
  ∃ c cs, text = c :: cs ∧ isVisible c = true ∧ ∀ s : Scanner,
    s.outerStarts = [] → s.keyStart = none → s.cursor.rest = text ++ rest →
    s.indent ≤ s.cursor.mark.column →
      s.takeToken c (cs ++ rest) =
        .ok (((s.saved.allowKey false).emit (.scalar style content)).moveTo
          ⟨s.cursor.mark.after text, rest⟩)

/-- The last token comes behind those that are put in front of it. -/
theorem tokens_insert_last (t : Token) (ts : List Token) (s : Scanner) :
    ((s.emit t).insert s.entries.length ts).tokens = s.tokens ++ ts ++ [t] := by
  have last : (s.emit t).entries.length - 1 - s.entries.length = 0 := by
    simp only [emit, List.length_cons]
    omega
  simp only [insert, last]
  simp only [emit, Scanner.tokens, List.modify_zero_cons, List.reverse_cons, List.flatMap_append,
    List.flatMap_cons, List.flatMap_nil, List.append_nil, List.append_assoc]

/-- The scanner behind a scalar that has turned out to be a key. -/
def keyed (t : Token) (ts : List Token) (cursor : Cursor) (s : Scanner) : Scanner :=
  { (s.emit t).insert s.entries.length ts with cursor, keyStart := none, keyAllowed := false }

/-- Tokens put in front of the last one leave the scanner in the same blocks. -/
theorem stands_keyed (t : Token) (ts : List Token) {cursor : Cursor}
    (stands : s.Stands toks blocks allowed column text) (rest : cursor.rest = cs) :
    (s.keyed t ts cursor).Stands (toks ++ ts ++ [t]) blocks false cursor.mark.column cs :=
  ⟨by rw [← stands.tokens]; exact tokens_insert_last t ts s, stands.blocks, stands.outside, rfl, rfl,
    rest⟩

/-- A colon makes a key of the scalar in front of it. -/
theorem takeValue_key {k : KeyStart} (start : s.keyStart = some k) (t : Token) (cursor : Cursor)
    (opens : Opens .blockMappingStart column toks blocks toks' blocks')
    (stands : s.Stands toks blocks allowed column text) (at_column : k.mark.column = column)
    (entry : k.entry = s.entries.length) (rest : cursor.rest = ':' :: cs) :
    ∃ next, ((s.emit t).moveTo cursor).takeValue = .ok next ∧ next.keyStart = none ∧
      next.Stands (toks' ++ [.key, t, .value]) blocks' false (cursor.mark.column + 1) cs := by
  cases opens with
  | inside =>
    have notDeeper : ¬ s.indent < (k.mark.column : Int) := by
      rw [at_column, ← stands.indent]
      exact Int.lt_irrefl _
    have stood := stands_take (t := .value) (stands_keyed t [.key] stands rest) rfl
    refine ⟨(s.keyed t [.key] cursor).take 1 .value, ?_, rfl, ?_⟩
    · simp [takeValue, emit, moveTo, start, inFlow, stands.outside, notDeeper, entry, keyed, insert]
    · simpa only [List.append_assoc, List.cons_append, List.nil_append] using stood
  | new deeper =>
    have isDeeper : s.indent < (k.mark.column : Int) := by
      rw [at_column]
      rwa [stands.indent]
    have stood := stands_take (t := .value)
      (stands_keyed t [.blockMappingStart, .key] stands rest) rfl
    refine ⟨{ (s.keyed t [.blockMappingStart, .key] cursor).take 1 .value with
      indent := k.mark.column, outerIndents := s.indent :: s.outerIndents }, ?_, rfl, ?_⟩
    · simp [takeValue, emit, moveTo, start, inFlow, stands.outside, isDeeper, entry, keyed, insert,
        take]
    · refine ⟨?_, ?_, stood.outside, stood.allowed, stood.column, stood.text⟩
      · have tokens := stood.tokens
        simp only [List.append_assoc, List.cons_append, List.nil_append] at tokens ⊢
        exact tokens
      · show (k.mark.column : Int) :: s.indent :: s.outerIndents = _
        rw [at_column, stands.blocks]

/-- A place on this line, not too far back, is kept. -/
theorem keepFresh_fresh {now : Mark} {k : KeyStart} (line : now.line = k.mark.line)
    (near : now.index ≤ k.mark.index + 1024) : keepFresh now (some k) = .ok (some k) := by
  have fresh : isStale now k = false := by
    simp only [isStale, line, Bool.or_eq_false_iff, decide_eq_false_iff_not]
    omega
  simp only [keepFresh, fresh, Bool.not_false, ↓reduceIte]

/-- A key that stands on the line of its value. -/
theorem gives_key {style : ScalarStyle} {content : String}
    (opens : Opens .blockMappingStart column toks blocks toks' blocks')
    (takes : TakesScalar text style content (':' :: cs)) (line : ∀ c ∈ text, isBreak c = false)
    (short : text.length ≤ 1024) (space : atSpace cs = true)
    (more : ∀ behind, column < behind →
      Gives (toks' ++ [.key, .scalar style content, .value]) blocks' false behind cs out) :
    Gives toks blocks true column (text ++ ':' :: cs) out := by
  obtain ⟨c, ds, rfl, visible, takes⟩ := takes
  rw [List.cons_append]
  refine gives_of_takeToken visible (fun s stands => opens.le stands) fun s stands unkeyed => ?_
  have low := opens.le stands
  refine ⟨_, takes s stands.outside unkeyed stands.text (stands.column ▸ low), ?_⟩
  -- The place of the key is still there at the colon.
  let start : KeyStart :=
    ⟨s.entries.length, s.cursor.mark, !s.inFlow && s.indent == (s.cursor.mark.column : Int)⟩
  let marked : Scanner := { s with keyStart := some start, keyAllowed := false }
  let colon : Cursor := ⟨s.cursor.mark.after (c :: ds), ':' :: cs⟩
  let key : Scanner := (marked.emit (.scalar style content)).moveTo colon
  have saved : s.saved.allowKey false = marked := by
    rw [Scanner.saved, if_pos stands.allowed]
    rfl
  have stood : marked.Stands toks blocks false column (c :: ds ++ ':' :: cs) :=
    ⟨stands.tokens, stands.blocks, stands.outside, rfl, stands.column, stands.text⟩
  have behind : colon.mark = ⟨_, _, _⟩ := Mark.after_of_not_break line
  have kept : key.dropStale = .ok key := by
    have fresh : keepFresh colon.mark (some start) = .ok (some start) := by
      rw [behind]
      exact keepFresh_fresh rfl (Nat.add_le_add_left short _)
    simp only [dropStale, key, moveTo, emit, marked, fresh, stands.outside]
    rfl
  have reach : column < colon.mark.column := by
    rw [behind, ← stands.column]
    exact Nat.lt_add_of_pos_right (Nat.succ_pos _)
  have low : key.indent ≤ (key.cursor.mark.column : Int) :=
    Int.le_trans low (Int.ofNat_le.mpr (Nat.le_of_lt reach))
  obtain ⟨next, taken, unkeyed', standing⟩ :
      ∃ next, key.takeValue = .ok next ∧ next.keyStart = none ∧ next.Stands _ _ _ _ _ :=
    takeValue_key rfl (.scalar style content) colon opens stood stands.column rfl rfl
  have runs := (more _ (Nat.lt_succ_of_lt reach)).runs standing (settled_of_none unkeyed')
    (Nat.le_refl _)
  rw [saved]
  refine runs_of_step ?_ runs (by simp only [List.length_append, List.length_cons]; omega)
  rw [step_of_dropStale rfl rfl kept, closeBlocks_of_le low, takeToken_value space, taken]
  rfl

/-! ## Scalars as values -/

/-- The scanner behind a scalar. There may be the place of a key, but there does not have to be a key
where the column is deeper than the block. -/
theorem stands_scalar (allowed' : Bool) (t : Token) (cursor : Cursor)
    (stands : s.Stands toks (x :: blocks) allowed column text) (unkeyed : s.keyStart = none)
    (deeper : x < column) :
    (((s.saved.allowKey allowed').emit t).moveTo cursor).Stands (toks ++ [t]) (x :: blocks) allowed'
      cursor.mark.column cursor.rest ∧
    ∀ k, s.saved.keyStart = some k → k.required = false ∧ k.mark = s.cursor.mark := by
  have other : (s.indent == (s.cursor.mark.column : Int)) = false := by
    rw [stands.indent, stands.column]
    exact beq_false_of_ne (Int.ne_of_lt deeper)
  have tokens : (s.emit t).tokens = toks ++ [t] := by
    rw [← stands.tokens]
    exact tokens_emit t s
  unfold saved
  split
  · refine ⟨⟨tokens, stands.blocks, stands.outside, rfl, rfl, rfl⟩, ?_⟩
    rintro k ⟨⟩
    exact ⟨by simp only [other, Bool.and_false], rfl⟩
  · refine ⟨⟨tokens, stands.blocks, stands.outside, rfl, rfl, rfl⟩, fun k some => ?_⟩
    rw [unkeyed] at some
    cases some

/-- A scalar that ends on a line of its own. -/
theorem gives_line {style : ScalarStyle} {content : String} {rest : List Char}
    (takes : TakesScalar text style content ('\n' :: rest)) (deeper : x < column)
    (more : Gives (toks ++ [.scalar style content]) (x :: blocks) true 0 rest out) :
    Gives toks (x :: blocks) allowed column (text ++ '\n' :: rest) out := by
  obtain ⟨c, cs, rfl, visible, takes⟩ := takes
  rw [List.cons_append]
  have le : ∀ s : Scanner, s.Stands toks (x :: blocks) allowed column (c :: (cs ++ '\n' :: rest)) →
      s.indent ≤ column := fun s stands => stands.indent ▸ Int.le_of_lt deeper
  refine gives_of_takeToken visible le fun s stands unkeyed => ?_
  have low := le s stands
  refine ⟨_, takes s stands.outside unkeyed stands.text (stands.column ▸ low), ?_⟩
  obtain ⟨standing, keys⟩ := stands_scalar false (.scalar style content)
    ⟨s.cursor.mark.after (c :: cs), '\n' :: rest⟩ stands unkeyed deeper
  have runs := runs_newLine standing (fun k start => ?_) more
  · exact runs.mono (by simp only [List.length_append, List.length_cons]; omega)
  · obtain ⟨optional, here⟩ := keys k start
    refine ⟨optional, ?_⟩
    rw [here]
    exact Mark.line_le_after _ _

/-- The text is taken as a scalar with the line ends and blanks behind it, up to a rest that stands at
a column of a later line. -/
def TakesLines (text : List Char) (style : ScalarStyle) (content : String) (indent : Int)
    (behind : Nat) (rest : List Char) : Prop :=
  ∃ c cs, text = c :: cs ∧ isVisible c = true ∧ rest.length ≤ cs.length ∧ ∀ s : Scanner,
    s.outerStarts = [] → s.keyStart = none → s.cursor.rest = text → s.indent = indent →
    indent < s.cursor.mark.column → ∃ start mark,
      s.takeToken c cs = .ok (((Scanner.allowKey true { s with keyStart := start }).emit
        (.scalar style content)).moveTo ⟨mark, rest⟩) ∧
      (start = none ∨ start = s.saved.keyStart) ∧ s.cursor.mark.line < mark.line ∧
        mark.column = behind

/-- A scalar that ends where a later line begins. -/
theorem gives_lines {style : ScalarStyle} {content : String} {behind : Nat} {rest : List Char}
    (takes : TakesLines text style content x behind rest) (deeper : x < column)
    (more : Gives (toks ++ [.scalar style content]) (x :: blocks) true behind rest out) :
    Gives toks (x :: blocks) allowed column text out := by
  obtain ⟨c, cs, rfl, visible, shorter, takes⟩ := takes
  have le : ∀ s : Scanner, s.Stands toks (x :: blocks) allowed column (c :: cs) →
      s.indent ≤ column := fun s stands => stands.indent ▸ Int.le_of_lt deeper
  refine gives_of_takeToken visible le fun s stands unkeyed => ?_
  obtain ⟨start, mark, taken, kept, later, at_column⟩ :=
    takes s stands.outside unkeyed stands.text stands.indent (stands.column ▸ deeper)
  obtain ⟨-, keys⟩ := stands_scalar true (.scalar style content) ⟨mark, rest⟩ stands unkeyed deeper
  have tokens : (s.emit (.scalar style content)).tokens = toks ++ [.scalar style content] := by
    rw [← stands.tokens]
    exact tokens_emit _ s
  refine ⟨_, taken, more.runs ⟨tokens, stands.blocks, stands.outside, rfl, at_column, rfl⟩ ?_ shorter⟩
  intro k some
  have some : start = .some k := some
  rcases kept with rfl | rfl
  · cases some
  · obtain ⟨optional, here⟩ := keys k some
    refine ⟨optional, ?_⟩
    rw [here]
    exact later

/-! ## Empty brackets -/

/-- The two characters of empty brackets, with their tokens. -/
inductive Brackets : Char → Char → Token → Token → Prop
  | square : Brackets '[' ']' .flowSequenceStart .flowSequenceEnd
  | curly : Brackets '\x7b' '\x7d' .flowMappingStart .flowMappingEnd

theorem Brackets.visible {d : Char} {t u : Token} (brackets : Brackets c d t u) :
    (isVisible c = true ∧ isBreak c = false) ∧ isVisible d = true ∧ isBreak d = false := by
  cases brackets <;> decide

/-- An opening bracket of either kind opens a flow collection. -/
theorem takeToken_open {d : Char} {t u : Token} (brackets : Brackets c d t u) (s : Scanner)
    (cs : List Char) : s.takeToken c cs = s.openFlow t := by
  cases brackets <;> simp [takeToken, isDocumentMark_of_ne]

/-- A closing bracket of either kind closes one. -/
theorem takeToken_close {d : Char} {t u : Token} (brackets : Brackets c d t u) (s : Scanner)
    (cs : List Char) : s.takeToken d cs = s.closeFlow u := by
  cases brackets <;> simp [takeToken, isDocumentMark_of_ne]

/-- Empty brackets at the end of a line. -/
theorem gives_brackets {d : Char} {t u : Token} (brackets : Brackets c d t u) (deeper : x < column)
    (more : Gives (toks ++ [t, u]) (x :: blocks) true 0 text out) :
    Gives toks (x :: blocks) allowed column (c :: d :: '\n' :: text) out := by
  obtain ⟨⟨visible, line⟩, visible', line'⟩ := brackets.visible
  have le : ∀ s : Scanner, s.Stands toks (x :: blocks) allowed column (c :: d :: '\n' :: text) →
      s.indent ≤ column := fun s stands => stands.indent ▸ Int.le_of_lt deeper
  refine gives_of_takeToken visible le fun s stands unkeyed => ?_
  have low := le s stands
  obtain ⟨-, keys⟩ := stands_scalar false t s.cursor stands unkeyed deeper
  have next : s.cursor.mark.next c = ⟨_, _, _⟩ := Mark.next_of_not_break line
  -- Between the brackets, the place where a key may have begun is kept for what is around them.
  let opened : Scanner := { s.emit t with
    cursor := ⟨s.cursor.mark.next c, d :: '\n' :: text⟩, keyAllowed := true, keyStart := none
    outerStarts := [s.saved.keyStart] }
  let closed : Scanner := { opened.emit u with
    cursor := ⟨(s.cursor.mark.next c).next d, '\n' :: text⟩, keyAllowed := false
    keyStart := s.saved.keyStart, outerStarts := [] }
  have taken : s.takeToken c (d :: '\n' :: text) = .ok opened := by
    rw [takeToken_open brackets, openFlow, saveKey_eq unkeyed, saved_eq]
    simp only [Except.bind, bind, take, moveTo, emit, stands.outside, skip_one stands.text, opened]
  have kept : opened.dropStale = .ok opened := by
    have fresh : keepFresh (s.cursor.mark.next c) s.saved.keyStart = .ok s.saved.keyStart := by
      cases start : s.saved.keyStart with
      | none => rfl
      | some k =>
        obtain ⟨-, here⟩ := keys k start
        rw [next, ← here]
        exact keepFresh_fresh rfl (Nat.add_le_add_left (by decide) _)
    simp only [dropStale, opened, emit, List.mapM_cons, List.mapM_nil, fresh]
    rfl
  have low : opened.indent ≤ (opened.cursor.mark.column : Int) := by
    show s.indent ≤ ((s.cursor.mark.next c).column : Int)
    rw [next, stands.column]
    exact Int.le_trans low (Int.ofNat_le.mpr (Nat.le_succ _))
  have step : opened.step = .ok (.inr closed) := by
    rw [step_of_dropStale rfl visible' kept, closeBlocks_of_le low, takeToken_close brackets]
    rfl
  have tokens : closed.tokens = toks ++ [t, u] := by
    have last : closed.tokens = (s.emit t).tokens ++ [u] := tokens_emit u (s.emit t)
    rw [last, tokens_emit, stands.tokens, List.append_assoc]
    rfl
  have standing : closed.Stands (toks ++ [t, u]) (x :: blocks) false
      ((s.cursor.mark.next c).next d).column ('\n' :: text) :=
    ⟨tokens, stands.blocks, rfl, rfl, rfl, rfl⟩
  refine ⟨opened, taken, runs_of_step step (runs_newLine standing (fun k start => ?_) more)
    (Nat.lt_succ_self _)⟩
  obtain ⟨optional, here⟩ := keys k start
  refine ⟨optional, ?_⟩
  rw [here]
  exact Nat.le_trans Mark.line_le_next Mark.line_le_next

end Scanner

end Pipework.Yaml
