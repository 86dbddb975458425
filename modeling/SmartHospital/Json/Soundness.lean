import SmartHospital.Json.Acceptance
import SmartHospital.Json.Texts
import SmartHospital.Json.WellFormed

/-! Whatever is read as a value spells it. -/
namespace SmartHospital.Json

variable {floating : Floating}

/-- What a document that is read may be made of: in front of something or other, what stands
for a comma is a token. -/
abbrev Spelled : Form floating → (depth : Nat) → Bytes → Prop :=
  SpellsWith fun text => text ≠ [] ∧ ∃ rest, Strays text rest

/-- What is read as a value is spelled behind spaces and comments. -/
def Answer.SpelledIn (room : Nat) (reader : Reader) : Answer (Value floating) → Prop
  | .success v next => ∃ g t depth, Gap g ∧ Spelled (.value v) depth t ∧ depth ≤ room ∧
      reader.current = g ++ (t ++ next.current)
  | _ => True

/-- What a turn does for a loop that collects: `more` relates what was collected, a text and
what is collected at the end of it. -/
def TurnSpelled (more : α → Bytes → α → Prop) (s : Reader × α) : Turn (Reader × α) (Answer α) → Prop
  | .leave (.success all next) => ∃ text, more s.2 text all ∧ s.1.current = text ++ next.current
  | .leave _ => True
  | .again next => ∃ front, s.1.current = front ++ next.1.current ∧
      ∀ text all rest, next.1.current = text ++ rest → more next.2 text all → more s.2 (front ++ text) all

/-- The rule of the loops that collect what is spelled. -/
theorem run_spelled {loop : Loop (Reader × α) (Answer α)} {more : α → Bytes → α → Prop}
    (turns : ∀ s, TurnSpelled more s (loop.body s)) {all : α} {last : Reader} (s : Reader × α) :
    loop.run s = .success all last → ∃ text, more s.2 text all ∧ s.1.current = text ++ last.current := by
  apply Loop.run_induction loop
    (fun s answer => answer = .success all last → ∃ text, more s.2 text all ∧ s.1.current = text ++ last.current)
  · rintro s _ leaves rfl
    have turn := turns s
    rw [leaves] at turn
    exact turn
  · intro s next again later read
    have turn := turns s
    rw [again] at turn
    obtain ⟨front,whole,passes⟩ := turn
    obtain ⟨text,collected,further⟩ := later read
    exact ⟨front ++ text,passes text all _ further collected,by rw [whole,further,List.append_assoc]⟩

/-- The elements to come. -/
def MoreElements (room : Nat) (elements : List (Value floating)) (text : Bytes) (all : List (Value floating)) : Prop :=
  ∃ vs depth, all = elements ++ vs ∧ Spelled (.elements vs) depth text ∧ depth ≤ room

/-- The members to come. -/
def MoreMembers (room : Nat) (members : Members floating) (text : Bytes) (all : Members floating) : Prop :=
  ∃ ms depth, all = assignAll members ms ∧ Spelled (.members ms) depth text ∧ depth ≤ room

section

variable {room depth : Nat} {reader : Reader} {g t h name n : Bytes} {v : Value floating}

theorem elementEnd_sound (front : Gap g) (first : Spelled (.value v) depth t) (fits : depth ≤ room)
    (s : Reader × List (Value floating)) (whole : s.1.current = g ++ (t ++ reader.current)) :
    TurnSpelled (MoreElements room) s (elementEnd reader (s.2 ++ [v])) := by
  unfold elementEnd
  dsimp only
  split
  · trivial
  rename_i known
  split
  · rename_i atEnd
    obtain ⟨h,behind,further⟩ := skipCommentTokens_marked atEnd (by simp)
    refine ⟨_,⟨[v],depth,rfl,.lastElement front first behind,fits⟩,?_⟩
    generalize (skipCommentTokens reader.current).stop = stop at further ⊢
    rw [whole,further]
    simp [Reader.goTo,TokenType.mark]
  · rename_i goesOn
    have separator : (skipCommentTokens reader.current).type = .arraySeparator := by
      by_contra other
      exact known ⟨other,goesOn⟩
    obtain ⟨h,behind,further⟩ := skipCommentTokens_marked separator (by simp)
    refine ⟨g ++ (t ++ (h ++ [comma])),?_,?_⟩
    · generalize (skipCommentTokens reader.current).stop = stop at further ⊢
      rw [whole,further]
      simp [Reader.goTo,TokenType.mark]
    · rintro text _ rest _ ⟨vs,deeper,rfl,spelled,also⟩
      refine ⟨v :: vs,max depth deeper,by simp,?_,Nat.max_le.mpr ⟨fits,also⟩⟩
      simpa using SpellsWith.element front first behind spelled

theorem elementTurn_sound {readValue : Reader → Answer (Value floating)}
    (reads : ∀ reader, (readValue reader).SpelledIn room reader) (s : Reader × List (Value floating)) :
    TurnSpelled (MoreElements room) s (elementTurn readValue s) := by
  obtain ⟨front,spaces,whole⟩ := skipSpaces_front s.1.current
  unfold elementTurn
  dsimp only
  split
  · rename_i first
    obtain ⟨behind,atEnd⟩ := List.head?_eq_some_iff.mp first
    have token := readToken_mark (c := closeBracket) rfl rfl behind
    refine ⟨front ++ [closeBracket],⟨[],0,(List.append_nil _).symm,.noElement spaces,Nat.zero_le room⟩,?_⟩
    rw [atEnd] at whole ⊢
    rw [token.stop,whole]
    simp [Reader.goTo]
  split
  · trivial
  · have value := reads (s.1.goTo (skipSpaces s.1.current))
    cases read : readValue (s.1.goTo (skipSpaces s.1.current)) with
    | success v next =>
      rw [read] at value
      obtain ⟨g,t,depth,gap,spelled,fits,further⟩ := value
      refine elementEnd_sound ((gap_of_spaces spaces).append gap) spelled fits s ?_
      rw [List.append_assoc,← further]
      exact whole
    | failure next => trivial
    | thrown => trivial

/-- What stands for a comma behind a comment. -/
theorem stray_token {current : Bytes} (notEnd : (skipCommentTokens current).type ≠ .objectEnd)
    (more : (skipCommentTokens current).stop ≠ []) (isComment : (readToken current).type = .comment) :
    ∃ h k, Gap h ∧ ¬ Spaces h ∧ k ≠ [] ∧ Strays k (skipCommentTokens current).stop ∧
      current = h ++ (k ++ (skipCommentTokens current).stop) := by
  obtain ⟨behind,_,same,other⟩ := skipCommentTokens_reads current
  have again : readToken (skipCommentTokens current).start = skipCommentTokens current := by
    rw [same,readToken_again]
  have nonempty : (skipCommentTokens current).start ≠ [] := by
    intro none
    have within := (skipCommentTokens current).within
    rw [none] at within
    exact more (List.suffix_nil.mp within)
  obtain ⟨h,gap,whole⟩ := skipCommentTokens_front nonempty
  refine ⟨h,(skipCommentTokens current).text,gap,?_,?_,?_,?_⟩
  · intro spaces
    rw [whole,readToken_spaces spaces,again,same] at isComment
    exact other isComment
  · intro none
    obtain ⟨c,rest,start⟩ := List.exists_cons_of_ne_nil nonempty
    have shorter := (stop_suffix (same ▸ start)).length_le
    have whole := congrArg List.length (Token.whole (skipCommentTokens current))
    rw [none,start,List.nil_append,List.length_cons,same] at whole
    omega
  · refine ⟨_,?_,notEnd,?_⟩
    · rw [same]
      exact other
    · rw [← Token.whole,again]
      exact ⟨rfl,Token.whole _,rfl⟩
  · rw [← Token.whole]
    exact whole

theorem members_nonempty {ms : Members floating} {text : Bytes} (spelled : Spelled (.members ms) depth text) :
    text ≠ [] := by
  cases spelled with
  | noMember => simp
  | lastMember => simp
  | member => simp
  | strayMember named =>
    obtain ⟨⟩ := named
    simp

theorem memberEnd_sound (named : Named name n) (front : Gap g) (first : Spelled (.value v) depth t)
    (fits : depth ≤ room) (s : Reader × Members floating) (whole : s.1.current = n ++ (g ++ (t ++ reader.current))) :
    TurnSpelled (MoreMembers room) s (memberEnd reader (assign name v s.2)) := by
  unfold memberEnd
  dsimp only
  split
  · trivial
  rename_i known
  split
  · rename_i atEnd
    obtain ⟨h,behind,further⟩ := skipCommentTokens_marked atEnd (by simp)
    refine ⟨_,⟨[(name,v)],depth,rfl,.lastMember named front first behind,fits⟩,?_⟩
    generalize (skipCommentTokens reader.current).stop = stop at further ⊢
    rw [whole,further]
    simp [Reader.goTo,TokenType.mark]
  rename_i goesOn
  by_cases separator : (skipCommentTokens reader.current).type = .arraySeparator
  · obtain ⟨h,behind,further⟩ := skipCommentTokens_marked separator (by simp)
    refine ⟨n ++ (g ++ (t ++ (h ++ [comma]))),?_,?_⟩
    · generalize (skipCommentTokens reader.current).stop = stop at further ⊢
      rw [whole,further]
      simp [Reader.goTo,TokenType.mark]
    · rintro text _ rest _ ⟨ms,deeper,rfl,spelled,also⟩
      refine ⟨(name,v) :: ms,max depth deeper,rfl,?_,Nat.max_le.mpr ⟨fits,also⟩⟩
      simpa using SpellsWith.member named front first behind spelled
  · have isComment : (readToken reader.current).type = .comment := by
      by_contra other
      rw [skipCommentTokens_other other] at goesOn separator
      exact known ⟨goesOn,separator,other⟩
    by_cases more : (skipCommentTokens reader.current).stop = []
    · -- no member can follow at the end
      refine ⟨s.1.current,by simp [Reader.goTo,more],?_⟩
      rintro text _ rest further ⟨ms,deeper,rfl,spelled,also⟩
      exact absurd (List.append_eq_nil_iff.mp (further.symm.trans more)).1 (members_nonempty spelled)
    · obtain ⟨h,k,behind,commented,nonempty,strays,further⟩ := stray_token goesOn more isComment
      refine ⟨n ++ (g ++ (t ++ (h ++ k))),?_,?_⟩
      · generalize (skipCommentTokens reader.current).stop = stop at further ⊢
        rw [whole,further]
        simp [Reader.goTo]
      · rintro text _ rest _ ⟨ms,deeper,rfl,spelled,also⟩
        refine ⟨(name,v) :: ms,max depth deeper,rfl,?_,Nat.max_le.mpr ⟨fits,also⟩⟩
        simpa using SpellsWith.strayMember named front first behind commented ⟨nonempty,_,strays⟩ spelled

/-- A name that was read up to its colon. -/
theorem named_of_tokens {current : Bytes} (isString : (skipCommentTokens current).type = .string)
    (decodes : decodeString (skipCommentTokens current) = .ok name) (short : name.length < 2 ^ 30)
    (separator : (readToken (skipCommentTokens current).stop).type = .memberSeparator) :
    ∃ n, Named name n ∧ current = n ++ (readToken (skipCommentTokens current).stop).stop := by
  have nonempty : (skipCommentTokens current).start ≠ [] := skipCommentTokens_more (by simp [isString])
  obtain ⟨g,gap,whole⟩ := skipCommentTokens_front nonempty
  obtain ⟨c,behind,start,scanned⟩ := skipCommentTokens_scanned nonempty
  obtain ⟨body,token,quoted⟩ := decodeString_sound start scanned isString decodes
  have colonStart : (readToken (skipCommentTokens current).stop).start ≠ [] := start_ne_nil (by simp [separator])
  obtain ⟨s,d,rest,spaces,further,_,mark⟩ := readToken_scanned colonStart
  rw [separator] at mark
  rw [scanned_marked mark (by simp)] at further
  refine ⟨_,.name gap quoted short spaces,?_⟩
  generalize (readToken (skipCommentTokens current).stop).stop = stop at further ⊢
  rw [whole,token,further]
  simp [TokenType.mark]

theorem memberTurn_sound {readValue : Reader → Answer (Value floating)}
    (reads : ∀ reader, (readValue reader).SpelledIn room reader) (s : Reader × Members floating) :
    TurnSpelled (MoreMembers room) s (memberTurn readValue s) := by
  unfold memberTurn memberValue
  dsimp only
  split
  · rename_i atEnd
    obtain ⟨g,gap,whole⟩ := skipCommentTokens_marked atEnd (by simp)
    refine ⟨g ++ [closeBrace],⟨[],0,rfl,.noMember gap,Nat.zero_le room⟩,?_⟩
    generalize (skipCommentTokens s.1.current).stop = stop at whole ⊢
    rw [whole]
    simp [Reader.goTo,TokenType.mark]
  split
  · rename_i isString
    cases decodes : decodeString (skipCommentTokens s.1.current) with
    | error problem => trivial
    | ok name =>
      simp only [decoded,Reader.goTo]
      split
      · trivial
      rename_i long
      split
      · trivial
      rename_i separator
      obtain ⟨n,named,whole⟩ := named_of_tokens isString decodes (Nat.lt_of_not_le long) (not_not.mp separator)
      generalize (readToken (skipCommentTokens s.1.current).stop).stop = stop at whole ⊢
      have value := reads ⟨stop,s.1.errors⟩
      cases read : readValue ⟨stop,s.1.errors⟩ with
      | success v next =>
        rw [read] at value
        obtain ⟨g,t,depth,gap,spelled,fits,further⟩ := value
        exact memberEnd_sound named gap spelled fits s (whole.trans (congrArg (n ++ ·) further))
      | failure next => trivial
      | thrown => trivial
  · trivial

theorem spelledIn_token {token : Token} (gap : Gap g) (whole : reader.current = g ++ token.start)
    (text : token.start = t ++ token.stop) (spelled : Spelled (.value v) 1 t) :
    Answer.SpelledIn (room + 1) reader (.success v (reader.goTo token.stop)) :=
  ⟨g,t,1,gap,spelled,Nat.succ_le_succ (Nat.zero_le room),whole.trans (congrArg (g ++ ·) text)⟩

theorem readObject_sound {inner : ValueReader floating} (reads : ∀ reader, (inner.read reader).SpelledIn room reader)
    (gap : Gap g) {next : Reader} (whole : reader.current = g ++ openBrace :: next.current) :
    (readObject inner next).SpelledIn (room + 1) reader := by
  unfold readObject
  cases read : (objectLoop inner).run (next,[]) with
  | success all last =>
    obtain ⟨text,⟨ms,depth,rfl,spelled,fits⟩,further⟩ := run_spelled (memberTurn_sound reads) _ read
    exact ⟨g,openBrace :: text,depth + 1,gap,.object spelled,Nat.succ_le_succ fits,
      whole.trans (congrArg (g ++ openBrace :: ·) further)⟩
  | failure last => trivial
  | thrown => trivial

theorem readArray_sound {inner : ValueReader floating} (reads : ∀ reader, (inner.read reader).SpelledIn room reader)
    (gap : Gap g) {next : Reader} (whole : reader.current = g ++ openBracket :: next.current) :
    (readArray inner next).SpelledIn (room + 1) reader := by
  unfold readArray
  cases read : (arrayLoop inner).run (next,[]) with
  | success all last =>
    have few := array_few inner next
    rw [read] at few
    obtain ⟨text,⟨vs,depth,rfl,spelled,fits⟩,further⟩ := run_spelled (elementTurn_sound reads) _ read
    exact ⟨g,openBracket :: text,depth + 1,gap,.array few spelled,Nat.succ_le_succ fits,
      whole.trans (congrArg (g ++ openBracket :: ·) further)⟩
  | failure last => trivial
  | thrown => trivial

theorem valueAt_sound {inner : ValueReader floating} (reads : ∀ reader, (inner.read reader).SpelledIn room reader)
    {token : Token} {c : UInt8} {behind : Bytes} (gap : Gap g) (whole : reader.current = g ++ token.start)
    (start : token.start = c :: behind) (scanned : Scanned c behind token.type token.stop) :
    (valueAt inner token (reader.goTo token.stop)).SpelledIn (room + 1) reader := by
  obtain ⟨isTrue,isFalse,isNull⟩ := scanned_literal scanned
  unfold valueAt
  split
  · rename_i opens
    refine readObject_sound reads gap ?_
    rw [whole,start,scanned_marked (opens ▸ scanned) (by simp)]
    rfl
  · rename_i opens
    refine readArray_sound reads gap ?_
    rw [whole,start,scanned_marked (opens ▸ scanned) (by simp)]
    rfl
  · rename_i isNumber
    cases decodes : (decodeNumber token.text : Except Problem (Value floating)) with
    | ok v =>
      obtain ⟨text,front,spelled⟩ := decodeNumber_sound start scanned isNumber decodes
      exact spelledIn_token gap whole front spelled
    | error problem => trivial
  · rename_i isString
    cases decodes : decodeString token with
    | ok text =>
      obtain ⟨body,front,quoted⟩ := decodeString_sound start scanned isString decodes
      simp only [decoded,Answer.stored]
      split
      · rename_i stored
        exact spelledIn_token gap whole (front.trans (by simp)) (.string quoted stored)
      · trivial
    | error problem => trivial
  · rename_i known
    exact spelledIn_token gap whole (start.trans (isTrue known)) .true
  · rename_i known
    exact spelledIn_token gap whole (start.trans (isFalse known)) .false
  · rename_i known
    exact spelledIn_token gap whole (start.trans (isNull known)) .null
  · trivial

theorem readValue_sound (floating : Floating) (room : Nat) (reader : Reader) :
    ((readValue room : ValueReader floating).read reader).SpelledIn room reader := by
  induction room generalizing reader with
  | zero => trivial
  | succ room ih =>
    change (valueAt (readValue room) (skipCommentTokens reader.current)
      (reader.goTo (skipCommentTokens reader.current).stop)).SpelledIn _ _
    by_cases atEnd : (skipCommentTokens reader.current).type = .endOfStream
    · unfold valueAt
      rw [atEnd]
      trivial
    · obtain ⟨g,gap,whole⟩ := skipCommentTokens_front (skipCommentTokens_more atEnd)
      obtain ⟨c,behind,start,scanned⟩ := skipCommentTokens_scanned (skipCommentTokens_more atEnd)
      exact valueAt_sound ih gap whole start scanned

theorem skipBom_front (document : Bytes) : ∃ bom, Mark bom ∧ document = bom ++ skipBom document := by
  unfold skipBom
  split
  · rename_i marked
    obtain ⟨behind,rfl⟩ := List.isPrefixOf_iff_prefix.mp marked
    exact ⟨_,.inr rfl,by simp⟩
  · exact ⟨[],.inl rfl,rfl⟩

theorem parse_of_read {document : Bytes} {next : Reader}
    (read : (readValue stackLimit).read ⟨skipBom document,[]⟩ = .success v next) :
    parse document = .success v (next.goTo (skipCommentTokens next.current).stop) := by
  unfold parse
  rw [read]

theorem read_of_parse {document : Bytes} {last : Reader} (read : parse document = .success v last) :
    ∃ next, (readValue stackLimit).read ⟨skipBom document,[]⟩ = .success v next ∧
      last = next.goTo (skipCommentTokens next.current).stop := by
  unfold parse at read
  split at read
  · rename_i root next found
    obtain ⟨rfl,rfl⟩ := Answer.success.inj read
    exact ⟨next,found,rfl⟩
  · contradiction
  · contradiction

theorem read_front {document : Bytes} {next : Reader}
    (read : (readValue stackLimit).read ⟨skipBom document,[]⟩ = .success v next) :
    ∃ bom g t depth, document = bom ++ (g ++ (t ++ next.current)) ∧ Mark bom ∧ Gap g ∧
      Spelled (.value v) depth t ∧ depth ≤ stackLimit := by
  obtain ⟨bom,mark,whole⟩ := skipBom_front document
  have value := readValue_sound floating stackLimit ⟨skipBom document,[]⟩
  rw [read] at value
  obtain ⟨g,t,depth,gap,spelled,fits,further⟩ := value
  exact ⟨bom,g,t,depth,by rw [← further]; exact whole,mark,gap,spelled,fits⟩

/-- A document that is read starts with a spelling of what it is read as, nested within the
limit, behind an optional mark, spaces and comments. -/
theorem parse_sound {document : Bytes} {last : Reader} (read : parse document = .success v last) :
    ∃ bom g t rest depth, document = bom ++ (g ++ (t ++ rest)) ∧ Mark bom ∧ Gap g ∧
      Spelled (.value v) depth t ∧ depth ≤ stackLimit ∧ last = ⟨(skipCommentTokens rest).stop,[]⟩ := by
  obtain ⟨next,found,rfl⟩ := read_of_parse read
  obtain ⟨bom,g,t,depth,whole,mark,gap,spelled,fits⟩ := read_front found
  have follows := (readValue stackLimit : ValueReader floating).follows ⟨skipBom document,[]⟩
  rw [found] at follows
  have same : next.errors = [] := follows.errors
  exact ⟨bom,g,t,next.current,depth,whole,mark,gap,spelled,fits,by rw [Reader.goTo,same]⟩

end

/-- A question mark behind a comment stands for a comma. -/
theorem stray_mark_sound : ∃ bom g t rest depth,
    Bytes.ofString "\x7b\"a\":null/**/?\"b\":true\x7d" = bom ++ (g ++ (t ++ rest)) ∧ Mark bom ∧ Gap g ∧
      Spelled (.value (.object [([97],.null),([98],.boolean true)]) : Form noDoubles) depth t ∧ depth ≤ stackLimit ∧
      (⟨[],[]⟩ : Reader) = ⟨(skipCommentTokens rest).stop,[]⟩ := by
  have spaces : Spaces [] := by simp [Spaces]
  have name (c : UInt8) (plain : c ≠ quote ∧ c ≠ backslash) :
      Named [c] ([] ++ (quote :: [c] ++ quote :: ([] ++ [colon]))) :=
    .name .nil (quoted_plain (by simpa using plain)) (by simp) spaces
  have comment : Gap (slash :: star :: [star,slash] ++ []) := .block .close .nil
  have strays (rest : Bytes) : Strays [63] rest := ⟨.error,by decide,by decide,readToken_at rfl rfl rfl⟩
  have last : Spells (.members [([98],(.boolean true : Value noDoubles))]) 1 _ :=
    .lastMember (name 98 (by decide)) .nil .true .nil
  have members : Spells (.members [([97],(.null : Value noDoubles)),([98],.boolean true)]) 1 _ :=
    .strayMember (name 97 (by decide)) .nil .null comment (by simp [Spaces]; decide) strays last
  have read : (readValue stackLimit).read ⟨skipBom ([] ++ ([] ++ (_ ++ []))),[]⟩ = _ :=
    read_document (.inl rfl) .nil (.object members) fun number => Bool.noConfusion number
  exact parse_sound (parse_of_read (read.trans (if_pos (by decide))))

end SmartHospital.Json
