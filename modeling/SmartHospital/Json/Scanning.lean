import SmartHospital.Json.Spelling

/-! What the reader makes of a spelled token and of what stands in front of it. -/
namespace SmartHospital.Json

section

variable {kind : TokenType} {c : UInt8} {current text body rest : Bytes}

theorem text_of_is {token : Token} (known : token.Is kind text rest) : token.text = text := by
  rw [Token.text,known.start,known.stop,List.length_append,Nat.add_sub_cancel,List.take_left]

theorem readToken_at (notSpace : isSpace c = false) (scanned : tokenAt c current = (kind, rest))
    (whole : c :: current = text ++ rest) : (readToken (c :: current)).Is kind text rest := by
  have start : skipSpaces (c :: current) = c :: current := List.dropWhile_cons_of_neg (by simp [notSpace])
  constructor
  · simp [readToken,start,getNextChar,scanned]
  · rw [readToken_start,start,whole]
  · simp [readToken,start,getNextChar,scanned]

/-- No token of one character is a space. -/
theorem readToken_mark (marked : mark? c = some kind) (visible : isSpace c = false) (rest : Bytes) :
    (readToken (c :: rest)).Is kind [c] rest :=
  readToken_at visible (by simp [tokenAt,marked]) rfl

theorem skipSpaces_append (spaces : Spaces text) (rest : Bytes) : skipSpaces (text ++ rest) = skipSpaces rest :=
  List.dropWhile_append_of_pos spaces

theorem readToken_congr {first second : Bytes} (same : skipSpaces first = skipSpaces second) :
    readToken first = readToken second := by
  unfold readToken
  simp only [same]

theorem readToken_spaces (spaces : Spaces text) (rest : Bytes) : readToken (text ++ rest) = readToken rest :=
  readToken_congr (skipSpaces_append spaces rest)

theorem skipCommentTokens_congr {first second : Bytes} (same : readToken first = readToken second) :
    skipCommentTokens first = skipCommentTokens second := by
  by_cases isComment : (readToken first).type = .comment
  · have other : (readToken second).type = .comment := same ▸ isComment
    rw [skipCommentTokens_comment isComment,skipCommentTokens_comment other,same]
  · have other : (readToken second).type ≠ .comment := same ▸ isComment
    rw [skipCommentTokens_other isComment,skipCommentTokens_other other,same]

theorem skipSpaces_skipSpaces (current : Bytes) : skipSpaces (skipSpaces current) = skipSpaces current := by
  induction current with
  | nil => rfl
  | cons c current ih =>
    by_cases blank : isSpace c = true
    · rw [skipSpaces,skipSpaces,List.dropWhile_cons_of_pos blank]
      exact ih
    · rw [skipSpaces,skipSpaces,List.dropWhile_cons_of_neg blank,List.dropWhile_cons_of_neg blank]

theorem skipCommentTokens_skipSpaces (current : Bytes) :
    skipCommentTokens (skipSpaces current) = skipCommentTokens current :=
  skipCommentTokens_congr (readToken_congr (skipSpaces_skipSpaces current))

theorem readCStyleComment_block (block : Block body) (rest : Bytes) :
    readCStyleComment (body ++ rest) = (true, rest) := by
  induction block with
  | close => rw [List.cons_append,List.cons_append,readCStyleComment,if_pos ⟨rfl,rfl⟩,List.nil_append]
  | skip goesOn _ ih => rw [List.cons_append,List.cons_append,readCStyleComment,if_neg goesOn,← List.cons_append,ih]

/-- The end of a line may come in two characters, of which the second is a space. -/
theorem readCppStyleComment_line (line : Line body) (rest : Bytes) :
    readCppStyleComment (body ++ rest) = rest ∨ rest = lineFeed :: readCppStyleComment (body ++ rest) := by
  induction line with
  | feed => exact .inl rfl
  | «return» =>
    cases rest with
    | nil => exact .inl rfl
    | cons d rest =>
      by_cases feed : d = lineFeed
      · subst feed
        exact .inr rfl
      · have other : carriageReturn ≠ lineFeed := by decide
        left
        rw [List.cons_append,readCppStyleComment.eq_def]
        simp [other,feed]
  | both => exact .inl rfl
  | skip notFeed notReturn _ ih =>
    rw [List.cons_append,readCppStyleComment.eq_def]
    simpa [notFeed,notReturn] using ih

theorem readToken_comment (finished : readComment current = (true, rest)) (whole : slash :: current = text ++ rest) :
    (readToken (slash :: current)).Is .comment text rest :=
  readToken_at rfl (show ending .comment (readComment current) = _ by rw [finished]; rfl) whole

theorem readToken_block (block : Block body) (rest : Bytes) :
    (readToken (slash :: star :: body ++ rest)).Is .comment (slash :: star :: body) rest := by
  have finished : readComment (star :: (body ++ rest)) = readCStyleComment (body ++ rest) := rfl
  rw [readCStyleComment_block block] at finished
  exact readToken_comment finished rfl

theorem readToken_space {c : UInt8} (blank : isSpace c = true) (rest : Bytes) :
    readToken (c :: rest) = readToken rest := by
  have spaces : Spaces [c] := by simpa [Spaces] using blank
  exact readToken_spaces spaces rest

theorem readToken_line (line : Line body) (rest : Bytes) :
    (readToken (slash :: slash :: body ++ rest)).type = .comment ∧
      readToken (readToken (slash :: slash :: body ++ rest)).stop = readToken rest := by
  have finished : readComment (slash :: (body ++ rest)) = (true, readCppStyleComment (body ++ rest)) := rfl
  have suffix := readCppStyleComment_suffix (body ++ rest)
  obtain ⟨front,whole⟩ := suffix
  have known : (readToken (slash :: slash :: (body ++ rest))).Is .comment (slash :: slash :: front)
      (readCppStyleComment (body ++ rest)) := readToken_comment finished (by simp [whole])
  refine ⟨known.type,?_⟩
  rw [List.cons_append,List.cons_append,known.stop]
  rcases readCppStyleComment_line line rest with same | feed
  · rw [same]
  · rw [feed,readToken_space rfl,← feed]

/-- The token behind spaces and comments is the one that is read there. -/
theorem skipCommentTokens_gap (gap : Gap text) (rest : Bytes) :
    skipCommentTokens (text ++ rest) = skipCommentTokens rest := by
  have past {front behind : Bytes} (comment : (readToken (front ++ behind)).type = .comment)
      (same : readToken (readToken (front ++ behind)).stop = readToken behind) :
      skipCommentTokens (front ++ behind) = skipCommentTokens behind := by
    rw [skipCommentTokens_comment comment,skipCommentTokens_congr same]
  induction gap with
  | nil => rfl
  | @space c text blank _ ih => exact (skipCommentTokens_congr (readToken_space blank (text ++ rest))).trans ih
  | @block body text comment _ ih =>
    rw [List.append_assoc]
    have token := readToken_block comment (text ++ rest)
    exact (past token.type (congrArg readToken token.stop)).trans ih
  | @line body text comment _ ih =>
    rw [List.append_assoc]
    have token := readToken_line comment (text ++ rest)
    exact (past token.1 token.2).trans ih

theorem readToken_commented (gap : Gap text) (commented : ¬ Spaces text) (rest : Bytes) :
    (readToken (text ++ rest)).type = .comment := by
  induction gap with
  | nil => exact absurd (by simp [Spaces]) commented
  | @space c text blank _ ih =>
    rw [List.cons_append,readToken_space blank]
    apply ih
    intro spaces
    exact commented (List.forall_mem_cons.mpr ⟨blank,spaces⟩)
  | @block body text comment _ ih =>
    rw [List.append_assoc]
    exact (readToken_block comment (text ++ rest)).type
  | @line body text comment _ ih =>
    rw [List.append_assoc]
    exact (readToken_line comment (text ++ rest)).1

/-- The first token there is a comment, or that one. -/
theorem readToken_gap (gap : Gap text) (rest : Bytes) :
    (readToken (text ++ rest)).type = .comment ∨ readToken (text ++ rest) = readToken rest := by
  by_cases spaces : Spaces text
  · exact .inr (readToken_spaces spaces rest)
  · exact .inl (readToken_commented gap spaces rest)

theorem is_behind_gap {behind : Bytes} (known : (readToken rest).Is kind body behind) (other : kind ≠ .comment)
    (gap : Gap text) : (skipCommentTokens (text ++ rest)).Is kind body behind := by
  rw [skipCommentTokens_gap gap,skipCommentTokens_other (by rw [known.type]; exact other)]
  exact known

end

end SmartHospital.Json
