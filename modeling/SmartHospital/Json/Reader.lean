import SmartHospital.Json.Decode

/-! Documents: `OurReader` from its tokens to a value. The partial value that a failed
read leaves behind is not kept. -/
namespace SmartHospital.Json

structure ErrorInfo where
  token : Token
  message : Bytes
  extra : Option Bytes

/-- `current_` and `errors_` -/
structure Reader where
  current : Bytes
  errors : List ErrorInfo

/-- What a read returns. It is `thrown` by an exception, and where an index runs past `int`. -/
inductive Answer (α : Type*) where
  | success (value : α) (reader : Reader)
  | failure (reader : Reader)
  | thrown

variable {floating : Floating}

namespace Reader

def goTo (reader : Reader) (current : Bytes) : Reader := { reader with current := current }

def addError (reader : Reader) (message : Bytes) (token : Token) (extra : Option Bytes) : Reader :=
  { reader with errors := reader.errors ++ [⟨token,message,extra⟩] }

def recoverFromError (reader : Reader) (skipUntilToken : TokenType) : Reader :=
  reader.goTo ((recovery skipUntilToken).run reader.current)

def addErrorAndRecover (reader : Reader) (message : Bytes) (token : Token) (skipUntilToken : TokenType) : Reader :=
  (reader.addError message token none).recoverFromError skipUntilToken

end Reader

def decoded (reader : Reader) (token : Token) : Except Problem α → Answer α
  | .ok value => .success value reader
  | .error problem => .failure (reader.addError problem.message token problem.extra)

abbrev Members (floating : Floating) := List (Bytes × Value floating)

/-- Behind the value of a member. Behind a comment, any token stands for the comma. -/
def memberEnd (reader : Reader) (members : Members floating) :
    Turn (Reader × Members floating) (Answer (Members floating)) :=
  let next := readToken reader.current
  if next.type ≠ .objectEnd ∧ next.type ≠ .arraySeparator ∧ next.type ≠ .comment then
    .leave (.failure ((reader.goTo next.stop).addErrorAndRecover
      (Bytes.ofString "Missing ',' or '\x7d' in object declaration") next .objectEnd))
  else
    let next := skipCommentTokens reader.current
    if next.type = .objectEnd then .leave (.success members (reader.goTo next.stop))
    else .again (reader.goTo next.stop, members)

/-- With the value of a member. -/
def memberGot (members : Members floating) (name : Bytes) :
    Answer (Value floating) → Turn (Reader × Members floating) (Answer (Members floating))
  | .thrown => .leave .thrown
  | .failure reader => .leave (.failure (reader.recoverFromError .objectEnd))
  | .success value reader => memberEnd reader (assign name value members)

/-- Behind the name of a member. -/
def memberValue (readValue : Reader → Answer (Value floating)) (reader : Reader) (members : Members floating)
    (name : Bytes) : Turn (Reader × Members floating) (Answer (Members floating)) :=
  if 2 ^ 30 ≤ name.length then .leave .thrown
  else
    let separator := readToken reader.current
    if separator.type ≠ .memberSeparator then
      .leave (.failure ((reader.goTo separator.stop).addErrorAndRecover
        (Bytes.ofString "Missing ':' after object member name") separator .objectEnd))
    else memberGot members name (readValue (reader.goTo separator.stop))

/-- One turn of the loop of `readObject`. -/
def memberTurn (readValue : Reader → Answer (Value floating)) (s : Reader × Members floating) :
    Turn (Reader × Members floating) (Answer (Members floating)) :=
  let tokenName := skipCommentTokens s.1.current
  let reader := s.1.goTo tokenName.stop
  if tokenName.type = .objectEnd then .leave (.success s.2 reader)
  else if tokenName.type = .string then
    match decoded reader tokenName (decodeString tokenName) with
    | .thrown => .leave .thrown
    | .failure reader => .leave (.failure (reader.recoverFromError .objectEnd))
    | .success name reader => memberValue readValue reader s.2 name
  else
    .leave (.failure (reader.addErrorAndRecover (Bytes.ofString "Missing '\x7d' or object member name") tokenName
      .objectEnd))

/-- Behind an element. -/
def elementEnd (reader : Reader) (elements : List (Value floating)) :
    Turn (Reader × List (Value floating)) (Answer (List (Value floating))) :=
  let next := skipCommentTokens reader.current
  if next.type ≠ .arraySeparator ∧ next.type ≠ .arrayEnd then
    .leave (.failure ((reader.goTo next.stop).addErrorAndRecover
      (Bytes.ofString "Missing ',' or ']' in array declaration") next .arrayEnd))
  else if next.type = .arrayEnd then .leave (.success elements (reader.goTo next.stop))
  else .again (reader.goTo next.stop, elements)

/-- With an element. -/
def elementGot (elements : List (Value floating)) :
    Answer (Value floating) → Turn (Reader × List (Value floating)) (Answer (List (Value floating)))
  | .thrown => .leave .thrown
  | .failure reader => .leave (.failure (reader.recoverFromError .arrayEnd))
  | .success value reader => elementEnd reader (elements ++ [value])

/-- One turn of the loop of `readArray`. -/
def elementTurn (readValue : Reader → Answer (Value floating)) (s : Reader × List (Value floating)) :
    Turn (Reader × List (Value floating)) (Answer (List (Value floating))) :=
  let current := skipSpaces s.1.current
  if current.head? = some closeBracket then .leave (.success s.2 (s.1.goTo (readToken current).stop))
  -- `index++`
  else if maxInt ≤ s.2.length then .leave .thrown
  else elementGot s.2 (readValue (s.1.goTo current))

/-- A token of the document, and a place inside it. -/
structure ErrorInfo.Within (info : ErrorInfo) (document : Bytes) : Prop where
  token : info.token.start <:+ document
  extra : ∀ location ∈ info.extra, location <:+ info.token.start ∧ info.token.stop <:+ location

/-- Further on, with the same errors. -/
structure Ahead (reader next : Reader) : Prop where
  current : next.current <:+ reader.current
  errors : next.errors = reader.errors

/-- Further on, with one more error. -/
structure Failed (reader next : Reader) : Prop where
  current : next.current <:+ reader.current
  errors : ∃ info, info.Within reader.current ∧ next.errors = reader.errors ++ [info]

/-- What a read may do to its reader. -/
def Answer.Follows (reader : Reader) : Answer α → Prop
  | .success _ next => Ahead reader next
  | .failure next => Failed reader next
  | .thrown => True

/-- What one turn of a loop that reads may do. -/
def TurnFollows (reader : Reader) : Turn (Reader × α) (Answer β) → Prop
  | .again next => Ahead reader next.1 ∧ next.1.current.length < reader.current.length
  | .leave answer => answer.Follows reader

section

variable {reader middle next : Reader} {token : Token} {answer : Answer α}

theorem Ahead.trans (first : Ahead reader middle) (second : Ahead middle next) : Ahead reader next :=
  ⟨second.current.trans first.current,second.errors.trans first.errors⟩

theorem ahead_goTo {current : Bytes} (further : current <:+ reader.current) : Ahead reader (reader.goTo current) :=
  ⟨further,rfl⟩

theorem Failed.behind (failed : Failed middle next) (ahead : Ahead reader middle) : Failed reader next := by
  obtain ⟨further,info,⟨token,extra⟩,added⟩ := failed
  exact ⟨further.trans ahead.current,info,⟨token.trans ahead.current,extra⟩,ahead.errors ▸ added⟩

theorem Answer.Follows.behind (follows : answer.Follows middle) (ahead : Ahead reader middle) :
    answer.Follows reader := by
  cases answer with
  | success value next => exact ahead.trans follows
  | failure next => exact Failed.behind follows ahead
  | thrown => trivial

theorem TurnFollows.behind {turn : Turn (Reader × α) (Answer β)} (follows : TurnFollows middle turn)
    (ahead : Ahead reader middle) : TurnFollows reader turn := by
  cases turn with
  | again next => exact ⟨ahead.trans follows.1,follows.2.trans_le ahead.current.length_le⟩
  | leave answer => exact Answer.Follows.behind follows ahead

theorem failed_addError (started : token.start <:+ reader.current) {extra : Option Bytes}
    (inside : ∀ location ∈ extra, location <:+ token.start ∧ token.stop <:+ location) (message : Bytes) :
    Failed reader ((reader.goTo token.stop).addError message token extra) :=
  ⟨token.within.trans started,_,⟨started,inside⟩,rfl⟩

theorem Failed.recover (failed : Failed reader next) (skipUntilToken : TokenType) :
    Failed reader (next.recoverFromError skipUntilToken) :=
  ⟨(recovery_suffix skipUntilToken _).trans failed.current,failed.errors⟩

theorem failed_addErrorAndRecover (started : token.start <:+ reader.current) (message : Bytes)
    (skipUntilToken : TokenType) :
    Failed reader ((reader.goTo token.stop).addErrorAndRecover message token skipUntilToken) :=
  (failed_addError started (by simp) message).recover skipUntilToken

theorem follows_decoded {result : Except Problem α} (started : token.start <:+ reader.current)
    (inside : ∀ problem, result = .error problem →
      ∀ location ∈ problem.extra, location <:+ token.start ∧ token.stop <:+ location) :
    (decoded (reader.goTo token.stop) token result).Follows reader := by
  cases result with
  | ok value => exact ahead_goTo (token.within.trans started)
  | error problem => exact failed_addError started (inside problem rfl) problem.message

theorem skipCommentTokens_string {current : Bytes} (isString : (skipCommentTokens current).type = .string) :
    ∃ body, (skipCommentTokens current).start = quote :: body ++ quote :: (skipCommentTokens current).stop := by
  obtain ⟨behind,_,same,_⟩ := skipCommentTokens_reads current
  rw [same] at isString ⊢
  exact readToken_string isString

theorem follows_decodeString (reader : Reader) (isString : (skipCommentTokens reader.current).type = .string) :
    (decoded (reader.goTo (skipCommentTokens reader.current).stop) (skipCommentTokens reader.current)
      (decodeString (skipCommentTokens reader.current))).Follows reader := by
  obtain ⟨_,quoted⟩ := skipCommentTokens_string isString
  exact follows_decoded (skipCommentTokens_start _) fun problem failed => decodeString_within quoted failed

end

section

variable {readValue : Reader → Answer (Value floating)}

theorem memberEnd_follows (reader : Reader) (members : Members floating) :
    TurnFollows reader (memberEnd reader members) := by
  have ahead : Ahead reader (reader.goTo (skipCommentTokens reader.current).stop) :=
    ahead_goTo (skipCommentTokens_suffix reader.current)
  have started : (readToken reader.current).start <:+ reader.current := List.dropWhile_suffix _
  unfold memberEnd
  dsimp only
  split
  · exact failed_addErrorAndRecover started _ _
  rename_i known
  split
  · exact ahead
  · refine ⟨ahead,?_⟩
    -- the first token is not the end, so something is read in any case
    by_cases isComment : (readToken reader.current).type = .comment
    · have more : (readToken reader.current).type ≠ .endOfStream := by simp [isComment]
      have shorter := readToken_shorter more
      have rest := (skipCommentTokens_suffix (readToken reader.current).stop).length_le
      rw [skipCommentTokens_comment isComment]
      exact Nat.lt_of_le_of_lt rest shorter
    · rw [skipCommentTokens_other isComment]
      apply readToken_shorter
      intro atEnd
      exact known (by simp [atEnd])

theorem memberGot_follows {reader : Reader} {answer : Answer (Value floating)} (follows : answer.Follows reader)
    (members : Members floating) (name : Bytes) : TurnFollows reader (memberGot members name answer) := by
  cases answer with
  | success value next => exact (memberEnd_follows next (assign name value members)).behind follows
  | failure next => exact Failed.recover follows _
  | thrown => trivial

theorem memberValue_follows (reads : ∀ reader, (readValue reader).Follows reader) (reader : Reader)
    (members : Members floating) (name : Bytes) : TurnFollows reader (memberValue readValue reader members name) := by
  have started : (readToken reader.current).start <:+ reader.current := List.dropWhile_suffix _
  have ahead : Ahead reader (reader.goTo (readToken reader.current).stop) := ahead_goTo (readToken_suffix _)
  have inside := (reads (reader.goTo (readToken reader.current).stop)).behind ahead
  unfold memberValue
  split
  · trivial
  dsimp only
  split
  · exact failed_addErrorAndRecover started _ _
  · exact memberGot_follows inside members name

theorem memberTurn_follows (reads : ∀ reader, (readValue reader).Follows reader) (s : Reader × Members floating) :
    TurnFollows s.1 (memberTurn readValue s) := by
  have ahead : Ahead s.1 (s.1.goTo (skipCommentTokens s.1.current).stop) :=
    ahead_goTo (skipCommentTokens_suffix s.1.current)
  have started := skipCommentTokens_start s.1.current
  unfold memberTurn
  dsimp only
  split
  · exact ahead
  split
  · rename_i isString
    have name := follows_decodeString s.1 isString
    split
    · trivial
    · rename_i failed
      rw [failed] at name
      exact Failed.recover name _
    · rename_i text next read
      rw [read] at name
      exact (memberValue_follows reads next s.2 text).behind name
  · exact failed_addErrorAndRecover started _ _

theorem elementEnd_follows (reader : Reader) (elements : List (Value floating)) :
    TurnFollows reader (elementEnd reader elements) := by
  have ahead : Ahead reader (reader.goTo (skipCommentTokens reader.current).stop) :=
    ahead_goTo (skipCommentTokens_suffix reader.current)
  have started := skipCommentTokens_start reader.current
  unfold elementEnd
  dsimp only
  split
  · exact failed_addErrorAndRecover started _ _
  rename_i known
  split
  · exact ahead
  · rename_i goesOn
    refine ⟨ahead,skipCommentTokens_shorter ?_⟩
    intro atEnd
    exact known (by simp [atEnd])

theorem elementGot_follows {reader : Reader} {answer : Answer (Value floating)} (follows : answer.Follows reader)
    (elements : List (Value floating)) : TurnFollows reader (elementGot elements answer) := by
  cases answer with
  | success value next => exact (elementEnd_follows next (elements ++ [value])).behind follows
  | failure next => exact Failed.recover follows _
  | thrown => trivial

theorem elementTurn_follows (reads : ∀ reader, (readValue reader).Follows reader)
    (s : Reader × List (Value floating)) : TurnFollows s.1 (elementTurn readValue s) := by
  have spaces : Ahead s.1 (s.1.goTo (skipSpaces s.1.current)) := ahead_goTo (List.dropWhile_suffix _)
  have inside := (reads (s.1.goTo (skipSpaces s.1.current))).behind spaces
  unfold elementTurn
  dsimp only
  split
  · exact ahead_goTo ((readToken_suffix _).trans spaces.current)
  split
  · trivial
  · exact elementGot_follows inside s.2

end

/-- The read of a value with what it may do. -/
structure ValueReader (floating : Floating) where
  read : Reader → Answer (Value floating)
  follows : ∀ reader, (read reader).Follows reader

def objectLoop (inner : ValueReader floating) : Loop (Reader × Members floating) (Answer (Members floating)) where
  body := memberTurn inner.read
  size s := s.1.current.length
  shrinks {s next} again := by
    have turn := memberTurn_follows inner.follows s
    rw [again] at turn
    exact turn.2

def arrayLoop (inner : ValueReader floating) :
    Loop (Reader × List (Value floating)) (Answer (List (Value floating))) where
  body := elementTurn inner.read
  size s := s.1.current.length
  shrinks {s next} again := by
    have turn := elementTurn_follows inner.follows s
    rw [again] at turn
    exact turn.2

def Answer.map (f : α → β) : Answer α → Answer β
  | .success value reader => .success (f value) reader
  | .failure reader => .failure reader
  | .thrown => .thrown

/-- `readObject` from behind the brace. -/
def readObject (inner : ValueReader floating) (reader : Reader) : Answer (Value floating) :=
  ((objectLoop inner).run (reader, [])).map .object

/-- `readArray` from behind the bracket. -/
def readArray (inner : ValueReader floating) (reader : Reader) : Answer (Value floating) :=
  ((arrayLoop inner).run (reader, [])).map .array

/-- The decoded string as a value. -/
def Answer.stored : Answer Bytes → Answer (Value floating)
  | .success text reader =>
    match Value.ofString text with
    | some value => .success value reader
    | none => .thrown
  | .failure reader => .failure reader
  | .thrown => .thrown

/-- The `switch` of `readValue` on the type of a token behind which the reader stands. -/
def valueAt (inner : ValueReader floating) (token : Token) (reader : Reader) : Answer (Value floating) :=
  match token.type with
  | .objectBegin => readObject inner reader
  | .arrayBegin => readArray inner reader
  | .number => decoded reader token (decodeNumber token.text)
  | .string => (decoded reader token (decodeString token)).stored
  | .true => .success (.boolean true) reader
  | .false => .success (.boolean false) reader
  | .null => .success .null reader
  | _ => .failure (reader.addError (Bytes.ofString "Syntax error: value, object or array expected.") token none)

theorem Answer.Follows.map {answer : Answer α} (follows : answer.Follows reader) (f : α → β) :
    (answer.map f).Follows reader := by
  cases answer <;> exact follows

theorem Answer.Follows.stored {answer : Answer Bytes} (follows : answer.Follows reader) :
    (answer.stored : Answer (Value floating)).Follows reader := by
  cases answer with
  | success text next =>
    simp only [Answer.stored]
    split
    · exact follows
    · trivial
  | failure next => exact follows
  | thrown => trivial

/-- The rule of the loops that read. -/
theorem run_follows {loop : Loop (Reader × α) (Answer β)} (turns : ∀ s, TurnFollows s.1 (loop.body s))
    (s : Reader × α) : (loop.run s).Follows s.1 := by
  apply Loop.run_induction loop (fun (s : Reader × α) answer => Answer.Follows s.1 answer)
  · intro s answer leaves
    have turn := turns s
    rw [leaves] at turn
    exact turn
  · intro s next again later
    have turn := turns s
    rw [again] at turn
    exact later.behind turn.1

theorem valueAt_follows (inner : ValueReader floating) (reader : Reader) :
    (valueAt inner (skipCommentTokens reader.current)
      (reader.goTo (skipCommentTokens reader.current).stop)).Follows reader := by
  have ahead : Ahead reader (reader.goTo (skipCommentTokens reader.current).stop) :=
    ahead_goTo (skipCommentTokens_suffix reader.current)
  have started := skipCommentTokens_start reader.current
  unfold valueAt
  split
  · exact (Answer.Follows.map (run_follows (memberTurn_follows inner.follows) _) _).behind ahead
  · exact (Answer.Follows.map (run_follows (elementTurn_follows inner.follows) _) _).behind ahead
  · exact follows_decoded started fun problem failed => by simp [decodeNumber_extra failed]
  · rename_i isString
    exact (follows_decodeString reader isString).stored
  · exact ahead
  · exact ahead
  · exact ahead
  · exact failed_addError started (by simp) _

/-- `readValue` where `room` more values may be nested; the exception is that of the stack limit. -/
def readValue : (room : Nat) → ValueReader floating
  | 0 => ⟨fun _ => .thrown,fun _ => trivial⟩
  | room + 1 =>
    { read := fun reader =>
        let token := skipCommentTokens reader.current
        valueAt (readValue room) token (reader.goTo token.stop)
      follows := valueAt_follows (readValue room) }

def stackLimit : Nat := 1000

/-- The byte order mark. -/
def skipBom (current : Bytes) : Bytes :=
  if [0xEF,0xBB,0xBF].isPrefixOf current = true then current.drop 3 else current

/-- What stands behind the value is not looked at: the token read there is not used. -/
def parse (document : Bytes) : Answer (Value floating) :=
  match (readValue stackLimit).read ⟨skipBom document,[]⟩ with
  | .success root reader => .success root (reader.goTo (skipCommentTokens reader.current).stop)
  | .failure reader => .failure (reader.goTo (skipCommentTokens reader.current).stop)
  | .thrown => .thrown

/-- No error, or exactly one: a token of the document, which points inside itself if it
points anywhere. -/
def Answer.Reported (document : Bytes) : Answer α → Prop
  | .success _ reader => reader.errors = []
  | .failure reader => ∃ info, reader.errors = [info] ∧ info.Within document
  | .thrown => True

theorem parse_reported (document : Bytes) : (parse document : Answer (Value floating)).Reported (skipBom document) := by
  have follows := (readValue stackLimit : ValueReader floating).follows ⟨skipBom document,[]⟩
  unfold parse
  split
  · rename_i root reader read
    rw [read] at follows
    exact follows.errors
  · rename_i reader read
    rw [read] at follows
    obtain ⟨info,within,added⟩ := follows.errors
    exact ⟨info,added,within⟩
  · trivial

end SmartHospital.Json
