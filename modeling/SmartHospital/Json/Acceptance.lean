import SmartHospital.Json.Strings
import SmartHospital.Json.Numbers

/-! Every spelling of a value is read as that value, up to the limit on nesting and not
beyond it. -/
namespace SmartHospital.Json

variable {floating : Floating}

section

variable {kind : TokenType} {c : UInt8} {text rest g h : Bytes}

/-- Behind a number comes none of what goes on with it. -/
theorem gap_stops (gap : Gap g) (quiet : g = [] → Stops rest) : Stops (g ++ rest) := by
  intro d first
  cases gap with
  | nil => exact quiet rfl d first
  | @space d' text blank _ =>
    cases first
    simp only [isSpace,Bool.or_eq_true,beq_iff_eq] at blank
    rcases blank with ((rfl | rfl) | rfl) | rfl <;> decide
  | block =>
    cases first
    decide
  | line =>
    cases first
    decide

theorem stops_at (quiet : continues c = false) (rest : Bytes) : Stops (c :: rest) := by
  intro d first
  cases first
  exact quiet

theorem mark_behind_gap (gap : Gap g) (marked : mark? c = some kind) (visible : isSpace c = false)
    (other : kind ≠ .comment) (rest : Bytes) : (skipCommentTokens (g ++ c :: rest)).Is kind [c] rest :=
  is_behind_gap (readToken_mark marked visible rest) other gap

theorem matchPattern_append (pattern rest : Bytes) : matchPattern pattern (pattern ++ rest) = (true, rest) := by
  have found : pattern.isPrefixOf (pattern ++ rest) = true := List.isPrefixOf_iff_prefix.mpr (List.prefix_append ..)
  rw [matchPattern,if_pos found,List.drop_left]

/-- A value starts with a character that is no space, not the end of an array and not the
first byte of a mark. -/
theorem value_head {v : Value floating} {depth : Nat} (spells : Spells (.value v) depth text) :
    ∃ c behind, text = c :: behind ∧ isSpace c = false ∧ c ≠ closeBracket ∧ c ≠ 0xEF := by
  cases spells with
  | null => exact ⟨_,_,rfl,by decide,by decide,by decide⟩
  | true => exact ⟨_,_,rfl,by decide,by decide,by decide⟩
  | false => exact ⟨_,_,rfl,by decide,by decide,by decide⟩
  | string => exact ⟨_,_,rfl,by decide,by decide,by decide⟩
  | array => exact ⟨_,_,rfl,by decide,by decide,by decide⟩
  | object => exact ⟨_,_,rfl,by decide,by decide,by decide⟩
  | number numeral =>
    obtain ⟨sign,integral,fraction',exponent',rfl,oneSign,digits,nonempty,_⟩ := numeral
    rcases oneSign with rfl | rfl | rfl
    · obtain ⟨d,more,rfl⟩ := List.exists_cons_of_ne_nil (nonempty.resolve_left fun none => none rfl)
      have isDigit : Decimal.isDigit d = true := digits d (List.mem_cons_self ..)
      exact ⟨d,_,rfl,digit_visible isDigit,digit_ne isDigit rfl,digit_ne isDigit rfl⟩
    · exact ⟨plus,_,rfl,by decide,by decide,by decide⟩
    · exact ⟨minus,_,rfl,by decide,by decide,by decide⟩

theorem element_head {v : Value floating} {depth : Nat} (gap : Gap g) (spells : Spells (.value v) depth text)
    (rest : Bytes) : (skipSpaces (g ++ (text ++ rest))).head? ≠ some closeBracket := by
  induction gap with
  | nil =>
    obtain ⟨c,behind,rfl,visible,notEnd,_⟩ := value_head spells
    rw [List.nil_append,List.cons_append,skipSpaces,List.dropWhile_cons_of_neg (by simp [visible])]
    simpa using notEnd
  | @space c g blank _ ih =>
    rw [List.cons_append,skipSpaces,List.dropWhile_cons_of_pos blank]
    exact ih
  | block => exact fun first => absurd (Option.some.inj first) (by decide)
  | line => exact fun first => absurd (Option.some.inj first) (by decide)

end

section

variable {room : Nat} {errors : List ErrorInfo} {current rest g h : Bytes}

theorem read_congr {first second : Bytes} (same : skipCommentTokens first = skipCommentTokens second) :
    (readValue room : ValueReader floating).read ⟨first,errors⟩ = (readValue room).read ⟨second,errors⟩ := by
  cases room with
  | zero => rfl
  | succ room => simp only [readValue,same,Reader.goTo]

theorem read_gap (gap : Gap g) (current : Bytes) :
    (readValue room : ValueReader floating).read ⟨g ++ current,errors⟩ = (readValue room).read ⟨current,errors⟩ :=
  read_congr (skipCommentTokens_gap gap current)

theorem read_skipSpaces (current : Bytes) :
    (readValue room : ValueReader floating).read ⟨skipSpaces current,errors⟩ = (readValue room).read ⟨current,errors⟩ :=
  read_congr (skipCommentTokens_skipSpaces current)

theorem read_token (floating : Floating) (room : Nat) (errors : List ErrorInfo) {kind : TokenType} {text : Bytes}
    (known : (readToken current).Is kind text rest) (other : kind ≠ .comment) : ∃ token : Token, token.Is kind text rest ∧
      (readValue (room + 1) : ValueReader floating).read ⟨current,errors⟩ =
        valueAt (readValue room) token ⟨rest,errors⟩ := by
  have same : skipCommentTokens current = readToken current :=
    skipCommentTokens_other (by rw [known.type]; exact other)
  refine ⟨readToken current,known,?_⟩
  simp only [readValue,same,Reader.goTo,known.stop]

theorem elementEnd_close (gap : Gap h) (rest : Bytes) (elements : List (Value floating)) :
    elementEnd ⟨h ++ closeBracket :: rest,errors⟩ elements = .leave (.success elements ⟨rest,errors⟩) := by
  have token := mark_behind_gap (c := closeBracket) gap rfl rfl (by decide) rest
  simp [elementEnd,token.type,token.stop,Reader.goTo]

theorem elementEnd_comma (gap : Gap h) (rest : Bytes) (elements : List (Value floating)) :
    elementEnd ⟨h ++ comma :: rest,errors⟩ elements = .again (⟨rest,errors⟩,elements) := by
  have token := mark_behind_gap (c := comma) gap rfl rfl (by decide) rest
  simp [elementEnd,token.type,token.stop,Reader.goTo]

/-- What the first token behind a member may be. -/
theorem member_separated {c : UInt8} {kind : TokenType} (gap : Gap h) (marked : mark? c = some kind)
    (visible : isSpace c = false) (ends : kind = .objectEnd ∨ kind = .arraySeparator) (rest : Bytes) :
    ¬ ((readToken (h ++ c :: rest)).type ≠ .objectEnd ∧ (readToken (h ++ c :: rest)).type ≠ .arraySeparator ∧
      (readToken (h ++ c :: rest)).type ≠ .comment) := by
  rintro ⟨notEnd,notComma,notComment⟩
  rcases readToken_gap gap (c :: rest) with isComment | same
  · exact notComment isComment
  · rw [same,(readToken_mark marked visible rest).type] at notEnd notComma
    rcases ends with rfl | rfl
    · exact notEnd rfl
    · exact notComma rfl

theorem memberEnd_close (gap : Gap h) (rest : Bytes) (members : Members floating) :
    memberEnd ⟨h ++ closeBrace :: rest,errors⟩ members = .leave (.success members ⟨rest,errors⟩) := by
  have token := mark_behind_gap (c := closeBrace) gap rfl rfl (by decide) rest
  have separated := member_separated (c := closeBrace) gap rfl rfl (.inl rfl) rest
  unfold memberEnd
  simp only [if_neg separated,token.type,token.stop,Reader.goTo,if_true]

theorem memberEnd_comma (gap : Gap h) (rest : Bytes) (members : Members floating) :
    memberEnd ⟨h ++ comma :: rest,errors⟩ members = .again (⟨rest,errors⟩,members) := by
  have token := mark_behind_gap (c := comma) gap rfl rfl (by decide) rest
  have separated := member_separated (c := comma) gap rfl rfl (.inr rfl) rest
  have goesOn : ¬ TokenType.arraySeparator = .objectEnd := by decide
  unfold memberEnd
  simp only [if_neg separated,token.type,token.stop,Reader.goTo,if_neg goesOn]

theorem memberEnd_stray (gap : Gap h) (commented : ¬ Spaces h) (strays : Strays k rest) (members : Members floating) :
    memberEnd ⟨h ++ (k ++ rest),errors⟩ members = .again (⟨rest,errors⟩,members) := by
  obtain ⟨kind,other,notEnd,known⟩ := strays
  have token := is_behind_gap known other gap
  have separated : ¬ ((readToken (h ++ (k ++ rest))).type ≠ .objectEnd ∧
      (readToken (h ++ (k ++ rest))).type ≠ .arraySeparator ∧ (readToken (h ++ (k ++ rest))).type ≠ .comment) :=
    fun ⟨_,_,notComment⟩ => notComment (readToken_commented gap commented (k ++ rest))
  unfold memberEnd
  simp only [if_neg separated,token.type,token.stop,Reader.goTo,if_neg notEnd]

/-- A name is read up to its colon. -/
theorem memberTurn_named {name n : Bytes} (named : Named name n) (readValue : Reader → Answer (Value floating))
    (rest : Bytes) (members : Members floating) :
    memberTurn readValue (⟨n ++ rest,errors⟩,members) = memberGot members name (readValue ⟨rest,errors⟩) := by
  obtain ⟨front,quoted,short,spaces⟩ := named
  rename_i g body s
  have whole : g ++ (quote :: body ++ quote :: (s ++ [colon])) ++ rest =
      g ++ (quote :: body ++ quote :: (s ++ colon :: rest)) := by simp
  have token := is_behind_gap (readToken_quoted quoted (s ++ colon :: rest)) (by decide) front
  have text := decodeString_quoted quoted token
  have separator : (readToken (s ++ colon :: rest)).Is .memberSeparator [colon] rest := by
    rw [readToken_spaces spaces]
    exact readToken_mark rfl rfl rest
  have goesOn : ¬ TokenType.string = .objectEnd := by decide
  have fits : ¬ 2 ^ 30 ≤ name.length := Nat.not_le.mpr short
  rw [whole]
  simp only [memberTurn,token.type,if_neg goesOn,if_true,text,decoded,token.stop,Reader.goTo,memberValue,if_neg fits,
    separator.type,separator.stop,ne_eq,not_true_eq_false,if_false]

end

/-- What reading a form comes to where `room` values may be nested: the form itself, with
the errors as they were, or the exception of the limit. -/
def Accepted : Form floating → (depth : Nat) → Bytes → Prop
  | .value v, depth, text => ∀ room rest errors, (v.isNumber = true → Stops rest) →
    (readValue room).read ⟨text ++ rest,errors⟩ = if depth ≤ room then .success v ⟨rest,errors⟩ else .thrown
  | .elements vs, depth, text => ∀ room rest errors (elements : List (Value floating)),
    elements.length + vs.length ≤ maxInt → (arrayLoop (readValue room)).run (⟨text ++ rest,errors⟩,elements) =
      if depth ≤ room then .success (elements ++ vs) ⟨rest,errors⟩ else .thrown
  | .members ms, depth, text => ∀ room rest errors members,
    (objectLoop (readValue room)).run (⟨text ++ rest,errors⟩,members) =
      if depth ≤ room then .success (assignAll members ms) ⟨rest,errors⟩ else .thrown

section

variable {v : Value floating} {vs : List (Value floating)} {ms : Members floating} {depth deeper : Nat}
  {text t g h n name : Bytes}

/-- A value of one token. -/
theorem accepted_token {kind : TokenType} (other : kind ≠ .comment)
    (token : ∀ rest, (v.isNumber = true → Stops rest) → (readToken (text ++ rest)).Is kind text rest)
    (value : ∀ inner token rest errors, token.Is kind text rest →
      valueAt inner token ⟨rest,errors⟩ = .success v ⟨rest,errors⟩) : Accepted (.value v) 1 text := by
  intro room rest errors stops
  cases room with
  | zero => rfl
  | succ room =>
    obtain ⟨found,known,read⟩ := read_token floating room errors
      (token rest stops) other
    rw [read,value _ _ _ _ known]
    exact (if_pos (Nat.succ_le_succ (Nat.zero_le room))).symm

theorem accepted_literal {kind : TokenType} (other : kind ≠ .comment)
    (token : ∀ rest, (readToken (text ++ rest)).Is kind text rest)
    (value : ∀ inner (token : Token) reader, token.type = kind → valueAt inner token reader = .success v reader) :
    Accepted (.value v) 1 text :=
  accepted_token other (fun rest _ => token rest) fun inner token _ _ known => value inner token _ known.type

theorem valueAt_of_type {inner : ValueReader floating} {token : Token} {reader : Reader} :
    (token.type = .null → valueAt inner token reader = .success .null reader) ∧
    (token.type = .true → valueAt inner token reader = .success (.boolean true) reader) ∧
    (token.type = .false → valueAt inner token reader = .success (.boolean false) reader) ∧
    (token.type = .string → valueAt inner token reader = (decoded reader token (decodeString token)).stored) ∧
    (token.type = .number → valueAt inner token reader = decoded reader token (decodeNumber token.text)) ∧
    (token.type = .arrayBegin → valueAt inner token reader = readArray inner reader) ∧
    (token.type = .objectBegin → valueAt inner token reader = readObject inner reader) := by
  unfold valueAt
  refine ⟨?_,?_,?_,?_,?_,?_,?_⟩
  all_goals
    intro known
    rw [known]

theorem decodeNumber_isNumber (decodes : decodeNumber text = .ok v) : v.isNumber = true := by
  unfold decodeNumber decodeDouble at decodes
  dsimp only at decodes
  split at decodes
  · split at decodes
    · contradiction
    · cases decodes
      rfl
  · split at decodes
    · cases decodes
      rfl
    split at decodes
    · cases decodes
      rfl
    · cases decodes
      rfl

theorem elementTurn_spelled {room : Nat} {errors : List ErrorInfo} (front : Gap g)
    (first : Spells (.value v) depth t) (rest : Bytes) {elements : List (Value floating)}
    (few : elements.length < maxInt) :
    elementTurn (readValue room).read (⟨g ++ (t ++ rest),errors⟩,elements) =
      elementGot elements ((readValue room).read ⟨t ++ rest,errors⟩) := by
  unfold elementTurn
  dsimp only
  rw [if_neg (element_head front first rest),if_neg (Nat.not_le.mpr few)]
  simp only [Reader.goTo]
  rw [read_skipSpaces,read_gap front]

/-- Behind an element an array goes on, unless the element is nested too deep. -/
theorem element_accepted (front : Gap g) (first : Spells (.value v) depth t) (accepted : Accepted (.value v) depth t)
    {rest : Bytes} (stops : Stops rest) (room : Nat) (errors : List ErrorInfo) {elements : List (Value floating)}
    (few : elements.length < maxInt) : (arrayLoop (readValue room)).run (⟨g ++ (t ++ rest),errors⟩,elements) =
      if depth ≤ room then (arrayLoop (readValue room)).after (elementEnd ⟨rest,errors⟩ (elements ++ [v]))
      else .thrown := by
  have turn : (arrayLoop (readValue room)).body (⟨g ++ (t ++ rest),errors⟩,elements) =
      elementGot elements ((readValue room).read ⟨t ++ rest,errors⟩) := elementTurn_spelled front first rest few
  rw [Loop.run_eq,turn,accepted room rest errors fun _ => stops]
  split <;> rfl

/-- Behind a member an object does the same. -/
theorem member_accepted (named : Named name n) (front : Gap g) (accepted : Accepted (.value v) depth t)
    {rest : Bytes} (stops : Stops rest) (room : Nat) (errors : List ErrorInfo) (members : Members floating) :
    (objectLoop (readValue room)).run (⟨n ++ (g ++ (t ++ rest)),errors⟩,members) =
      if depth ≤ room then (objectLoop (readValue room)).after (memberEnd ⟨rest,errors⟩ (assign name v members))
      else .thrown := by
  have turn : (objectLoop (readValue room)).body (⟨n ++ (g ++ (t ++ rest)),errors⟩,members) =
      memberGot members name ((readValue room).read ⟨g ++ (t ++ rest),errors⟩) := memberTurn_named named _ _ _
  rw [Loop.run_eq,turn,read_gap front,accepted room rest errors fun _ => stops]
  split <;> rfl

/-- A value of one character in front of what is read in a loop. -/
theorem accepted_inside {kind : TokenType} {c : UInt8} (marked : mark? c = some kind) (visible : isSpace c = false)
    (other : kind ≠ .comment)
    (value : ∀ room (token : Token) rest errors, token.type = kind →
      valueAt (readValue room) token ⟨text ++ rest,errors⟩ =
        if depth ≤ room then .success v ⟨rest,errors⟩ else .thrown) :
    Accepted (.value v) (depth + 1) (c :: text) := by
  intro room rest errors _
  cases room with
  | zero => rfl
  | succ room =>
    obtain ⟨token,known,read⟩ := read_token floating room errors
      (readToken_mark marked visible (text ++ rest)) other
    rw [List.cons_append,read,value room token rest errors known.type]
    simp only [Nat.add_le_add_iff_right]

theorem accepted_array (few : vs.length ≤ maxInt) (inside : Accepted (.elements vs) depth text) :
    Accepted (.value (.array vs)) (depth + 1) (openBracket :: text) := by
  apply accepted_inside (show mark? openBracket = some .arrayBegin by rfl) rfl (by decide)
  intro room token rest errors known
  rw [valueAt_of_type.2.2.2.2.2.1 known,readArray,inside room rest errors [] ((Nat.zero_add _).trans_le few)]
  split <;> rfl

theorem accepted_object (inside : Accepted (.members ms) depth text) :
    Accepted (.value (.object (assignAll [] ms))) (depth + 1) (openBrace :: text) := by
  apply accepted_inside (show mark? openBrace = some .objectBegin by rfl) rfl (by decide)
  intro room token rest errors known
  rw [valueAt_of_type.2.2.2.2.2.2 known,readObject,inside room rest errors []]
  split <;> rfl

/-- Two limits are one. -/
theorem both_fit (result : Answer α) (depth deeper room : Nat) :
    (if depth ≤ room then if deeper ≤ room then result else .thrown else .thrown) =
      if max depth deeper ≤ room then result else .thrown := by
  by_cases first : depth ≤ room <;> by_cases second : deeper ≤ room <;> simp [first,second]

/-- Every spelling is read as what it spells, or thrown out for its depth. -/
theorem spells_accepted {form : Form floating} (spells : Spells form depth text) : Accepted form depth text := by
  induction spells with
  | null =>
    apply accepted_literal (show TokenType.null ≠ .comment by decide) _ fun _ _ _ known => valueAt_of_type.1 known
    intro rest
    refine readToken_at (c := 110) rfl ?_ rfl
    exact (congrArg (ending .null) (matchPattern_append _ rest) :)
  | true =>
    apply accepted_literal (show TokenType.true ≠ .comment by decide) _ fun _ _ _ known => valueAt_of_type.2.1 known
    intro rest
    refine readToken_at (c := 116) rfl ?_ rfl
    exact (congrArg (ending .true) (matchPattern_append _ rest) :)
  | false =>
    apply accepted_literal (show TokenType.false ≠ .comment by decide) _ fun _ _ _ known => valueAt_of_type.2.2.1 known
    intro rest
    refine readToken_at (c := 102) rfl ?_ rfl
    exact (congrArg (ending .false) (matchPattern_append _ rest) :)
  | number numeral decodes =>
    refine accepted_token (show TokenType.number ≠ .comment by decide)
      (fun rest stops => readToken_numeral numeral (stops (decodeNumber_isNumber decodes))) ?_
    intro inner token rest errors known
    rw [valueAt_of_type.2.2.2.2.1 known.type,text_of_is known,decodes]
    rfl
  | @string text body v quoted stored =>
    have token (rest : Bytes) :
        (readToken (quote :: body ++ [quote] ++ rest)).Is .string (quote :: body ++ [quote]) rest := by
      rw [List.append_assoc]
      exact readToken_quoted quoted rest
    refine accepted_token (show TokenType.string ≠ .comment by decide) (fun rest _ => token rest) ?_
    intro inner token rest errors known
    rw [valueAt_of_type.2.2.2.1 known.type,decodeString_quoted quoted known]
    simp only [decoded,Answer.stored,stored]
  | array few _ inside => exact accepted_array few inside
  | object _ inside => exact accepted_object inside
  | @noElement s spaces =>
    intro room rest errors elements _
    have first : skipSpaces (s ++ [closeBracket] ++ rest) = closeBracket :: rest := by
      rw [List.append_assoc,skipSpaces_append spaces]
      rfl
    have token := readToken_mark (c := closeBracket) rfl rfl rest
    rw [if_pos (Nat.zero_le room),List.append_nil]
    apply Loop.run_leave
    change elementTurn _ _ = _
    simp only [elementTurn,Reader.goTo,first,List.head?_cons,if_true,token.stop]
  | lastElement front first behind accepted =>
    intro room rest errors elements few
    have stops := gap_stops behind fun _ => stops_at (show continues closeBracket = false by rfl) rest
    have read := element_accepted front first accepted stops room errors (Nat.lt_of_succ_le few)
    rw [elementEnd_close behind] at read
    simpa [Loop.after] using read
  | element front first behind _ accepted later =>
    intro room rest errors elements few
    rename_i vs deeper text _
    have stops := gap_stops behind fun _ => stops_at (show continues comma = false by rfl) (text ++ rest)
    rw [List.length_cons] at few
    have read := element_accepted front first accepted stops room errors (by omega : elements.length < maxInt)
    rw [elementEnd_comma behind,Loop.after,later room rest errors _ (by simp; omega),both_fit] at read
    simpa using read
  | @noMember g front =>
    intro room rest errors members
    have token := mark_behind_gap (c := closeBrace) front rfl rfl (by decide) rest
    rw [if_pos (Nat.zero_le room),List.append_assoc]
    apply Loop.run_leave
    change memberTurn _ _ = _
    simp only [memberTurn,Reader.goTo,List.singleton_append,token.type,token.stop,if_true]
    rfl
  | lastMember named front first behind accepted =>
    intro room rest errors members
    have stops := gap_stops behind fun _ => stops_at (show continues closeBrace = false by rfl) rest
    have read := member_accepted named front accepted stops room errors members
    rw [memberEnd_close behind] at read
    simpa [Loop.after,assignAll] using read
  | member named front first behind _ accepted later =>
    intro room rest errors members
    rename_i ms deeper text _
    have stops := gap_stops behind fun _ => stops_at (show continues comma = false by rfl) (text ++ rest)
    have read := member_accepted named front accepted stops room errors members
    rw [memberEnd_comma behind,Loop.after,later,both_fit] at read
    simpa [assignAll] using read
  | strayMember named front first behind commented strays _ accepted later =>
    intro room rest errors members
    rename_i k ms deeper text _
    have stops : Stops (_ ++ (k ++ (text ++ rest))) :=
      gap_stops behind fun none => absurd (by simp [none,Spaces]) commented
    have read := member_accepted named front accepted stops room errors members
    rw [memberEnd_stray behind commented (strays (text ++ rest)),Loop.after,later,both_fit] at read
    simpa [assignAll] using read

/-- The byte order mark, or none. -/
def Mark (bom : Bytes) : Prop := bom = [] ∨ bom = [0xEF,0xBB,0xBF]

theorem skipBom_mark {bom document : Bytes} (mark : Mark bom) (plain : document.head? ≠ some 0xEF) :
    skipBom (bom ++ document) = document := by
  rcases mark with rfl | rfl
  · cases document with
    | nil => rfl
    | cons c document =>
      have different : ¬ 0xEF = c := fun same => plain (congrArg some same.symm)
      simp [skipBom,List.isPrefixOf,different]
  · simp [skipBom,List.isPrefixOf]

theorem document_head (front : Gap g) (spells : Spells (.value v) depth t) (rest : Bytes) :
    (g ++ (t ++ rest)).head? ≠ some 0xEF := by
  cases front with
  | nil =>
    obtain ⟨c,behind,rfl,_,_,plain⟩ := value_head spells
    simpa using plain
  | @space c g blank _ =>
    intro first
    cases first
    contradiction
  | block => exact fun first => absurd (Option.some.inj first) (by decide)
  | line => exact fun first => absurd (Option.some.inj first) (by decide)

theorem read_document {bom rest : Bytes} (mark : Mark bom) (front : Gap g) (spells : Spells (.value v) depth t)
    (stops : v.isNumber = true → Stops rest) :
    (readValue stackLimit).read ⟨skipBom (bom ++ (g ++ (t ++ rest))),[]⟩ =
      if depth ≤ stackLimit then .success v ⟨rest,[]⟩ else .thrown := by
  rw [skipBom_mark mark (document_head front spells rest),read_gap front]
  exact spells_accepted spells stackLimit rest [] stops

/-- A document that starts with a spelling, behind an optional mark, spaces and comments,
is read as what is spelled, whatever stands behind it; one nested deeper than the limit
ends in the exception. -/
theorem parse_spelled {bom rest : Bytes} (mark : Mark bom) (front : Gap g) (spells : Spells (.value v) depth t)
    (stops : v.isNumber = true → Stops rest) :
    parse (bom ++ (g ++ (t ++ rest))) =
      if depth ≤ stackLimit then .success v ⟨(skipCommentTokens rest).stop,[]⟩ else .thrown := by
  unfold parse
  rw [read_document mark front spells stops]
  by_cases fits : depth ≤ stackLimit
  · rw [if_pos fits,if_pos fits]
    rfl
  · rw [if_neg fits,if_neg fits]

end

/-- A comment, an array with a comma too many, and something behind it. -/
theorem commented_array_spelled :
    (parse (Bytes.ofString "/**/[null,] ?") : Answer (Value noDoubles)) = .success (.array [.null]) ⟨[],[]⟩ := by
  have comment : Gap (slash :: star :: [star,slash] ++ []) := .block .close .nil
  have none : Spaces [] := by simp [Spaces]
  have elements : Spells (.elements [(.null : Value noDoubles)]) 1
      ([] ++ (Bytes.ofString "null" ++ ([] ++ comma :: ([] ++ [closeBracket])))) :=
    .element .nil .null .nil (.noElement none)
  have read : parse ([] ++ (_ ++ (_ ++ Bytes.ofString " ?"))) = _ :=
    parse_spelled (.inl rfl) comment (.array (by decide) elements) fun number => Bool.noConfusion number
  exact read.trans (if_pos (by decide))

end SmartHospital.Json
