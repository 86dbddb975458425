import SmartHospital.Json.Scanning

/-! What a token that was read says about the text it was read from. -/
namespace SmartHospital.Json

/-- What the `switch` of `readToken` can come to. -/
inductive Scanned : UInt8 → Bytes → TokenType → Bytes → Prop where
  | mark (marked : mark? c = some kind) : Scanned c current kind current
  | string (read : readString current = (true, rest)) : Scanned quote current .string rest
  | comment (read : readComment current = (true, rest)) : Scanned slash current .comment rest
  | digit (isDigit : Decimal.isDigit c = true) (read : readNumber false current = (true, rest)) :
    Scanned c current .number rest
  | sign (isSign : c = minus ∨ c = plus) (read : readNumber true current = (true, rest)) :
    Scanned c current .number rest
  | true : Scanned 116 (Bytes.ofString "rue" ++ rest) .true rest
  | false : Scanned 102 (Bytes.ofString "alse" ++ rest) .false rest
  | null : Scanned 110 (Bytes.ofString "ull" ++ rest) .null rest
  | error : Scanned c current .error rest

section

variable {current behind rest : Bytes} {c : UInt8} {kind : TokenType}

theorem skipSpaces_front (current : Bytes) : ∃ s, Spaces s ∧ current = s ++ skipSpaces current :=
  ⟨current.takeWhile isSpace,fun _ member => List.mem_takeWhile_imp member,List.takeWhile_append_dropWhile.symm⟩

theorem skipDigits_front (current : Bytes) : ∃ d, Digits d ∧ current = d ++ skipDigits current :=
  ⟨current.takeWhile Decimal.isDigit,fun _ member => List.mem_takeWhile_imp member,
    List.takeWhile_append_dropWhile.symm⟩

theorem gap_of_spaces {s : Bytes} (spaces : Spaces s) : Gap s := by
  induction s with
  | nil => exact .nil
  | cons c s ih =>
    obtain ⟨blank,spaces⟩ := List.forall_mem_cons.mp spaces
    exact .space blank (ih spaces)

theorem Gap.append {g h : Bytes} (first : Gap g) (second : Gap h) : Gap (g ++ h) := by
  induction first with
  | nil => exact second
  | space blank _ ih => exact .space blank ih
  | block comment _ ih =>
    rw [List.append_assoc]
    exact .block comment ih
  | line comment _ ih =>
    rw [List.append_assoc]
    exact .line comment ih

theorem fraction_front (current : Bytes) : ∃ t, Fraction t ∧ current = t ++ fraction current := by
  fun_cases fraction current with
  | case1 => exact ⟨[],.none,rfl⟩
  | case2 current =>
    obtain ⟨d,digits,whole⟩ := skipDigits_front current
    exact ⟨dot :: d,.some digits,congrArg (dot :: ·) whole⟩
  | case3 => exact ⟨[],.none,rfl⟩

theorem exponent_front (current : Bytes) : ∃ t, Exponent t ∧ current = t ++ exponent current := by
  fun_cases exponent current with
  | case1 => exact ⟨[],.none,rfl⟩
  | case2 c letter => exact ⟨[c],.unsigned letter (by simp [Digits]),rfl⟩
  | case3 c letter s rest sign =>
    obtain ⟨d,digits,whole⟩ := skipDigits_front rest
    exact ⟨c :: s :: d,.signed letter sign digits,congrArg (c :: s :: ·) whole⟩
  | case4 c letter s rest noSign =>
    obtain ⟨d,digits,whole⟩ := skipDigits_front (s :: rest)
    exact ⟨c :: d,.unsigned letter digits,congrArg (c :: ·) whole⟩
  | case5 => exact ⟨[],.none,rfl⟩

/-- The parts of a number behind its first character. -/
theorem readNumber_front {checkInf : Bool} (read : readNumber checkInf current = (true, rest)) :
    ∃ i f e, Digits i ∧ Fraction f ∧ Exponent e ∧ current = i ++ (f ++ (e ++ rest)) := by
  unfold readNumber at read
  split at read
  · cases read
  · obtain ⟨i,digits,integral⟩ := skipDigits_front current
    obtain ⟨f,fractional,fraction'⟩ := fraction_front (skipDigits current)
    obtain ⟨e,exponential,exponent'⟩ := exponent_front (fraction (skipDigits current))
    rw [(Prod.mk.inj read).2] at exponent'
    exact ⟨i,f,e,digits,fractional,exponential,by rw [← exponent',← fraction',← integral]⟩

/-- A comment ends the document, or is spelled in front of what is left. -/
theorem readCStyleComment_front (read : readCStyleComment current = (true, rest)) :
    rest = [] ∨ ∃ body, Block body ∧ current = body ++ rest := by
  fun_induction readCStyleComment current with
  | case1 c d current ends =>
    obtain ⟨rfl,rfl⟩ := ends
    obtain rfl := (Prod.mk.inj read).2
    exact .inr ⟨[star,slash],.close,rfl⟩
  | case2 c d current goesOn ih =>
    rcases ih read with atEnd | ⟨body,block,whole⟩
    · exact .inl atEnd
    · right
      cases body with
      | nil => cases block
      | cons first body =>
        obtain ⟨rfl,rest⟩ := List.cons.inj whole
        exact ⟨c :: d :: body,.skip goesOn block,congrArg (c :: ·) whole⟩
  | case3 current few c behind first =>
    left
    obtain rfl := (Prod.mk.inj read).2
    rcases current with _ | ⟨c,_ | ⟨d,current⟩⟩
    · exact (Prod.mk.inj first).2.symm
    · exact (Prod.mk.inj first).2.symm
    · exact absurd rfl (few c d current)

theorem readCppStyleComment_front (current : Bytes) :
    readCppStyleComment current = [] ∨ ∃ body, Line body ∧ current = body ++ readCppStyleComment current := by
  fun_induction readCppStyleComment current with
  | case1 => exact .inl rfl
  | case2 current => exact .inr ⟨[lineFeed],.feed,rfl⟩
  | case3 => exact .inl rfl
  | case4 rest => exact .inr ⟨[carriageReturn,lineFeed],.both,rfl⟩
  | case5 d rest => exact .inr ⟨[carriageReturn],.return,rfl⟩
  | case6 c current notFeed notReturn ih =>
    rcases ih with atEnd | ⟨body,line,whole⟩
    · exact .inl atEnd
    · exact .inr ⟨c :: body,.skip notFeed notReturn line,congrArg (c :: ·) whole⟩

theorem readComment_front (read : readComment current = (true, rest)) :
    rest = [] ∨ ∃ g, Gap (slash :: g) ∧ current = g ++ rest := by
  cases current with
  | nil =>
    have unfinished : (readComment []).1 = false := rfl
    rw [read] at unfinished
    contradiction
  | cons d current =>
    have scanned : readComment (d :: current) = if d = star then readCStyleComment current
      else if d = slash then (true, readCppStyleComment current) else (false, current) := rfl
    rw [scanned] at read
    split at read
    · rename_i block
      subst block
      rcases readCStyleComment_front read with atEnd | ⟨body,block,rfl⟩
      · exact .inl atEnd
      · exact .inr ⟨star :: body,by simpa using Gap.block block .nil,rfl⟩
    split at read
    · rename_i line
      subst line
      obtain rfl := (Prod.mk.inj read).2
      rcases readCppStyleComment_front current with atEnd | ⟨body,line,whole⟩
      · exact .inl atEnd
      · exact .inr ⟨slash :: body,by simpa using Gap.line line .nil,congrArg (slash :: ·) whole⟩
    · cases read

/-- A token that may end in an error. -/
theorem scanned_ending {result : Bool × Bytes}
    (finished : ∀ rest, result = (true, rest) → Scanned c current kind rest) :
    Scanned c current (ending kind result).1 (ending kind result).2 := by
  obtain ⟨done,rest⟩ := result
  cases done with
  | true => exact finished rest rfl
  | false => exact .error

theorem matchPattern_front {pattern : Bytes} (found : matchPattern pattern current = (true, rest)) :
    current = pattern ++ rest := by
  unfold matchPattern at found
  split at found
  · rename_i starts
    obtain ⟨behind,rfl⟩ := List.isPrefixOf_iff_prefix.mp starts
    obtain rfl := (Prod.mk.inj found).2
    rw [List.drop_left]
  · cases found

theorem tokenAt_scanned (c : UInt8) (current : Bytes) :
    Scanned c current (tokenAt c current).1 (tokenAt c current).2 := by
  unfold tokenAt
  split
  · rename_i type marked
    exact .mark marked
  split
  · rename_i first
    subst first
    exact scanned_ending fun _ read => .string read
  split
  · rename_i first
    subst first
    exact scanned_ending fun _ read => .comment read
  split
  · rename_i isDigit
    exact .digit isDigit (by simp [readNumber])
  split
  · rename_i isSign
    exact scanned_ending fun _ read => .sign isSign read
  split
  · rename_i first
    subst first
    exact scanned_ending fun _ found => matchPattern_front found ▸ .true
  split
  · rename_i first
    subst first
    exact scanned_ending fun _ found => matchPattern_front found ▸ .false
  split
  · rename_i first
    subst first
    exact scanned_ending fun _ found => matchPattern_front found ▸ .null
  · exact .error

theorem start_ne_nil (more : (readToken current).type ≠ .endOfStream) : (readToken current).start ≠ [] := by
  intro atEnd
  rw [readToken_start] at atEnd
  exact more (by simp [readToken,atEnd,getNextChar,tokenAt,mark?]; decide)

/-- Unless it is at the end, a token starts with a character behind some spaces. -/
theorem readToken_scanned (more : (readToken current).start ≠ []) : ∃ s c behind, Spaces s ∧
    current = s ++ c :: behind ∧ (readToken current).start = c :: behind ∧
    Scanned c behind (readToken current).type (readToken current).stop := by
  obtain ⟨s,spaces,whole⟩ := skipSpaces_front current
  rw [readToken_start] at more
  cases start : skipSpaces current with
  | nil => exact absurd start more
  | cons c behind =>
    refine ⟨s,c,behind,spaces,start ▸ whole,start,?_⟩
    have scanned := tokenAt_scanned c behind
    simpa only [readToken,start,getNextChar] using scanned

/-- The character of a token of one. -/
def TokenType.mark : TokenType → UInt8
  | .objectBegin => openBrace
  | .objectEnd => closeBrace
  | .arrayBegin => openBracket
  | .arrayEnd => closeBracket
  | .arraySeparator => comma
  | .memberSeparator => colon
  | _ => 0

theorem mark?_eq (marked : mark? c = some kind) : c = kind.mark ∧
    kind ∈ [.objectBegin,.objectEnd,.arrayBegin,.arrayEnd,.arraySeparator,.memberSeparator,.endOfStream] := by
  unfold mark? at marked
  repeat' split at marked
  all_goals
    cases marked
    try simp_all [TokenType.mark]

theorem stop_suffix (start : (readToken current).start = c :: behind) : (readToken current).stop <:+ behind := by
  have scanned := tokenAt_suffix c behind
  rw [readToken_start] at start
  simpa [readToken,start,getNextChar] using scanned

theorem readToken_again (current : Bytes) : readToken (readToken current).start = readToken current :=
  readToken_congr (skipSpaces_skipSpaces current)

/-- What stands in front of a token, unless it is at the end. -/
theorem skipCommentTokens_front (more : (skipCommentTokens current).start ≠ []) :
    ∃ g, Gap g ∧ current = g ++ (skipCommentTokens current).start := by
  revert more
  apply Loop.run_induction commentTokens
    (fun current token => token.start ≠ [] → ∃ g, Gap g ∧ current = g ++ token.start)
  · intro current token turn more
    simp only [commentTokens] at turn
    split at turn
    · contradiction
    · cases turn
      obtain ⟨s,c,behind,spaces,whole,start,_⟩ := readToken_scanned more
      rw [start]
      exact ⟨s,gap_of_spaces spaces,whole⟩
  · intro current next turn later more
    simp only [commentTokens] at turn
    split at turn
    · rename_i isComment
      cases turn
      obtain ⟨g,gap,further⟩ := later more
      have goesOn : (readToken current).start ≠ [] := start_ne_nil (by simp [isComment])
      obtain ⟨s,c,behind,spaces,whole,_,scanned⟩ := readToken_scanned goesOn
      rw [isComment] at scanned
      generalize (readToken current).stop = stop at scanned further more ⊢
      cases scanned with
      | mark marked => exact absurd (mark?_eq marked).2 (by decide)
      | comment read =>
        rcases readComment_front read with atEnd | ⟨body,comment,rfl⟩
        · rw [atEnd] at further more
          exact absurd (List.append_eq_nil_iff.mp further.symm).2 more
        · refine ⟨_,((gap_of_spaces spaces).append comment).append gap,?_⟩
          rw [whole]
          simp only [List.append_assoc,List.cons_append,← further]
    · contradiction

/-- The token behind spaces and comments is one that was scanned. -/
theorem skipCommentTokens_scanned (more : (skipCommentTokens current).start ≠ []) :
    ∃ c behind, (skipCommentTokens current).start = c :: behind ∧
      Scanned c behind (skipCommentTokens current).type (skipCommentTokens current).stop := by
  obtain ⟨_,_,same,_⟩ := skipCommentTokens_reads current
  rw [same] at more ⊢
  obtain ⟨_,c,behind,_,_,start,scanned⟩ := readToken_scanned more
  exact ⟨c,behind,start,scanned⟩

theorem scanned_marked {stop : Bytes} (scanned : Scanned c behind kind stop)
    (single : kind ∈ [.objectBegin,.objectEnd,.arrayBegin,.arrayEnd,.arraySeparator,.memberSeparator]) :
    c :: behind = kind.mark :: stop := by
  cases scanned with
  | mark marked => rw [(mark?_eq marked).1]
  | _ => simp at single

theorem skipCommentTokens_more (more : (skipCommentTokens current).type ≠ .endOfStream) :
    (skipCommentTokens current).start ≠ [] := by
  obtain ⟨_,_,same,_⟩ := skipCommentTokens_reads current
  rw [same] at more ⊢
  exact start_ne_nil more

theorem skipCommentTokens_marked (known : (skipCommentTokens current).type = kind)
    (single : kind ∈ [.objectBegin,.objectEnd,.arrayBegin,.arrayEnd,.arraySeparator,.memberSeparator]) :
    ∃ g, Gap g ∧ current = g ++ kind.mark :: (skipCommentTokens current).stop := by
  have more : (skipCommentTokens current).type ≠ .endOfStream := by
    rw [known]
    rintro rfl
    simp at single
  obtain ⟨g,gap,whole⟩ := skipCommentTokens_front (skipCommentTokens_more more)
  obtain ⟨c,behind,start,scanned⟩ := skipCommentTokens_scanned (skipCommentTokens_more more)
  rw [known] at scanned
  rw [start,scanned_marked scanned single] at whole
  exact ⟨g,gap,whole⟩

theorem Token.whole (token : Token) : token.start = token.text ++ token.stop := by
  obtain ⟨front,whole⟩ := token.within
  rw [Token.text,← whole,List.length_append,Nat.add_sub_cancel,List.take_left]

end

end SmartHospital.Json
