import Houdini.GraphQL.Parser
import Mathlib.Data.Bool.AllAny

/-! The parser reads the tokens that a definition is written with, and no other ones. -/

set_option autoImplicit false

universe u

namespace GraphQL

def Sound {Parsed : Type u} (parse : Parser Parsed) (write : Parsed → List Token)
    (valid : Parsed → Prop) : Prop :=
  ∀ tokens parsed rest, parse tokens = some (parsed, rest) →
    tokens = write parsed ++ rest ∧ valid parsed

def Takes {Parsed : Type u} (parse : Parser Parsed) (tokens : List Token) (parsed : Parsed)
    (rest : List Token) : Prop :=
  parse (tokens ++ rest) = some (parsed, rest)

section Repetition

variable {Parsed : Type u} {parse : Parser Parsed} {write : Parsed → List Token}
  {valid : Parsed → Prop}

private theorem parseUpToWithin_sound (sound : Sound parse write valid) {stop : Token} {steps : Nat}
    {tokens rest : List Token} {parsed : List Parsed}
    (success : parseUpToWithin parse stop steps tokens = some (parsed, rest)) :
    tokens = parsed.flatMap write ++ stop :: rest ∧ ∀ each ∈ parsed, valid each := by
  induction steps generalizing tokens parsed with
  | zero => cases success
  | succ steps ih =>
      cases tokens with
      | nil => cases success
      | cons token others =>
          unfold parseUpToWithin at success
          split at success
          · next same =>
              cases success
              exact ⟨by rw [same]; rfl, List.forall_mem_nil _⟩
          · split at success
            · cases success
            · next first after began =>
                split at success
                · cases success
                · next inner last went =>
                    cases success
                    obtain ⟨start, validFirst⟩ := sound _ _ _ began
                    obtain ⟨followed, validOthers⟩ := ih went
                    refine ⟨?_, List.forall_mem_cons.mpr ⟨validFirst, validOthers⟩⟩
                    rw [start, followed, List.flatMap_cons, List.append_assoc]

theorem parseUpTo_sound (sound : Sound parse write valid) (stop : Token) :
    Sound (parseUpTo parse stop) (fun parsed => parsed.flatMap write ++ [stop])
      (fun parsed => ∀ each ∈ parsed, valid each) := by
  intro tokens parsed rest success
  rw [List.append_assoc]
  exact parseUpToWithin_sound sound success

theorem parseUpTo_takes {stop : Token} {parsed : List Parsed} {follows : List Token → Prop}
    (begins : ∀ each ∈ parsed, ∃ token tokens, write each = token :: tokens ∧ token ≠ stop)
    (takes : ∀ each ∈ parsed, ∀ rest, follows rest → Takes parse (write each) each rest)
    (next : ∀ each ∈ parsed, ∀ rest, follows (write each ++ rest))
    (last : ∀ rest, follows (stop :: rest)) (rest : List Token) :
    Takes (parseUpTo parse stop) (parsed.flatMap write ++ [stop]) parsed rest := by
  unfold Takes parseUpTo
  have enough : parsed.length < (parsed.flatMap write ++ [stop] ++ rest).length + 1 := by
    have least : parsed.length ≤ (parsed.flatMap write).length := by
      clear takes next
      induction parsed with
      | nil => exact Nat.le_refl _
      | cons first others ih =>
          obtain ⟨token, tokens, written, _⟩ := begins first List.mem_cons_self
          have below := ih fun each member => begins each (List.mem_cons_of_mem _ member)
          simp only [List.flatMap_cons, written, List.length_append, List.length_cons]
          omega
    simp only [List.length_append]
    omega
  generalize (parsed.flatMap write ++ [stop] ++ rest).length + 1 = steps at enough
  rw [List.append_assoc]
  induction parsed generalizing steps with
  | nil =>
      cases steps with
      | zero => cases enough
      | succ steps => simp [parseUpToWithin]
  | cons first others ih =>
      cases steps with
      | zero => cases enough
      | succ steps =>
          obtain ⟨token, tokens, written, other⟩ := begins first List.mem_cons_self
          have below := ih (fun each member => begins each (List.mem_cons_of_mem _ member))
            (fun each member => takes each (List.mem_cons_of_mem _ member))
            (fun each member => next each (List.mem_cons_of_mem _ member)) steps
            (Nat.lt_of_succ_lt_succ enough)
          have followed : follows (others.flatMap write ++ ([stop] ++ rest)) := by
            cases others with
            | nil => exact last rest
            | cons second others =>
                rw [List.flatMap_cons, List.append_assoc]
                exact next second (List.mem_cons_of_mem _ List.mem_cons_self) _
          have began := takes first List.mem_cons_self _ followed
          unfold Takes at began
          rw [List.flatMap_cons, List.append_assoc]
          rw [written, List.cons_append] at began ⊢
          unfold parseUpToWithin
          rw [if_neg other, began]
          dsimp only
          rw [below]

private theorem parseWhileWithin_sound (sound : Sound parse write valid) {start : Token}
    {steps : Nat} {tokens rest : List Token} {parsed : List Parsed}
    (success : parseWhileWithin parse start steps tokens = some (parsed, rest)) :
    tokens = parsed.flatMap write ++ rest ∧ ∀ each ∈ parsed, valid each := by
  induction steps generalizing tokens parsed with
  | zero => cases success
  | succ steps ih =>
      cases tokens with
      | nil =>
          cases success
          exact ⟨rfl, List.forall_mem_nil _⟩
      | cons token others =>
          unfold parseWhileWithin at success
          split at success
          · cases success
            exact ⟨rfl, List.forall_mem_nil _⟩
          · split at success
            · cases success
            · next first after began =>
                split at success
                · cases success
                · next inner last went =>
                    cases success
                    obtain ⟨start, validFirst⟩ := sound _ _ _ began
                    obtain ⟨followed, validOthers⟩ := ih went
                    refine ⟨?_, List.forall_mem_cons.mpr ⟨validFirst, validOthers⟩⟩
                    rw [start, followed, List.flatMap_cons, List.append_assoc]

theorem parseWhile_sound (sound : Sound parse write valid) (start : Token) :
    Sound (parseWhile parse start) (·.flatMap write) (fun parsed => ∀ each ∈ parsed, valid each) :=
  fun _ _ _ success => parseWhileWithin_sound sound success

theorem parseWhile_takes {start : Token} {parsed : List Parsed} {follows : List Token → Prop}
    (begins : ∀ each ∈ parsed, ∃ tokens, write each = start :: tokens)
    (takes : ∀ each ∈ parsed, ∀ rest, follows rest → Takes parse (write each) each rest)
    (next : ∀ each ∈ parsed, ∀ rest, follows (write each ++ rest)) {rest : List Token}
    (last : follows rest) (ends : ∀ token ∈ rest.head?, token ≠ start) :
    Takes (parseWhile parse start) (parsed.flatMap write) parsed rest := by
  unfold Takes parseWhile
  have enough : parsed.length < (parsed.flatMap write ++ rest).length + 1 := by
    have least : parsed.length ≤ (parsed.flatMap write).length := by
      clear takes next
      induction parsed with
      | nil => exact Nat.le_refl _
      | cons first others ih =>
          obtain ⟨tokens, written⟩ := begins first List.mem_cons_self
          have below := ih fun each member => begins each (List.mem_cons_of_mem _ member)
          simp only [List.flatMap_cons, written, List.length_append, List.length_cons]
          omega
    simp only [List.length_append]
    omega
  generalize (parsed.flatMap write ++ rest).length + 1 = steps at enough
  induction parsed generalizing steps with
  | nil =>
      cases steps with
      | zero => cases enough
      | succ steps =>
          cases rest with
          | nil => rfl
          | cons token rest =>
              have other : token ≠ start := ends token rfl
              simp [parseWhileWithin, other]
  | cons first others ih =>
      cases steps with
      | zero => cases enough
      | succ steps =>
          obtain ⟨tokens, written⟩ := begins first List.mem_cons_self
          have below := ih (fun each member => begins each (List.mem_cons_of_mem _ member))
            (fun each member => takes each (List.mem_cons_of_mem _ member))
            (fun each member => next each (List.mem_cons_of_mem _ member)) steps
            (Nat.lt_of_succ_lt_succ enough)
          have followed : follows (others.flatMap write ++ rest) := by
            cases others with
            | nil => exact last
            | cons second others =>
                rw [List.flatMap_cons, List.append_assoc]
                exact next second (List.mem_cons_of_mem _ List.mem_cons_self) _
          have began := takes first List.mem_cons_self _ followed
          unfold Takes at began
          rw [List.flatMap_cons, List.append_assoc]
          rw [written, List.cons_append] at began ⊢
          unfold parseWhileWithin
          rw [if_neg (not_not.mpr rfl), began]
          dsimp only
          rw [below]

def writeEnclosed (opening closing : Char) (write : Parsed → List Token) (parsed : List Parsed) :
    List Token :=
  if parsed.isEmpty then [] else enclosed opening closing (parsed.flatMap write)

theorem parseEnclosed_sound (sound : Sound parse write valid) (opening closing : Char) :
    Sound (parseEnclosed parse opening closing) (writeEnclosed opening closing write)
      (fun parsed => ∀ each ∈ parsed, valid each) := by
  intro tokens parsed rest success
  cases tokens with
  | nil =>
      cases success
      exact ⟨rfl, List.forall_mem_nil _⟩
  | cons token tokens =>
      rw [parseEnclosed] at success
      split at success
      · cases success
        exact ⟨rfl, List.forall_mem_nil _⟩
      · next opened =>
          split at success
          · next first others after went =>
              cases success
              obtain ⟨followed, each⟩ := parseUpTo_sound sound _ _ _ _ went
              refine ⟨?_, each⟩
              rw [not_not.mp opened, followed]
              simp [writeEnclosed, enclosed]
          · cases success

theorem parseEnclosed_takes {opening closing : Char} {parsed : List Parsed}
    {follows : List Token → Prop}
    (begins : ∀ each ∈ parsed, ∃ token tokens, write each = token :: tokens ∧
      token ≠ .punctuator closing)
    (takes : ∀ each ∈ parsed, ∀ rest, follows rest → Takes parse (write each) each rest)
    (next : ∀ each ∈ parsed, ∀ rest, follows (write each ++ rest))
    (last : ∀ rest, follows (.punctuator closing :: rest)) {rest : List Token}
    (ends : parsed = [] → ∀ token ∈ rest.head?, token ≠ .punctuator opening) :
    Takes (parseEnclosed parse opening closing) (writeEnclosed opening closing write parsed) parsed
      rest := by
  unfold Takes
  cases parsed with
  | nil =>
      cases rest with
      | nil => rfl
      | cons token rest =>
          have other : token ≠ .punctuator opening := ends rfl token rfl
          simp [parseEnclosed, writeEnclosed, other]
  | cons first others =>
      have went := parseUpTo_takes begins takes next last rest
      unfold Takes at went
      have written : writeEnclosed opening closing write (first :: others) ++ rest =
          .punctuator opening :: ((first :: others).flatMap write ++ [.punctuator closing] ++
            rest) := by
        simp [writeEnclosed, enclosed]
      rw [written, parseEnclosed, if_neg (not_not.mpr rfl), went]

end Repetition

@[simp] theorem word_ofList (text : List Char) : word (String.ofList text) = .name text := by
  simp [word]

def entryTokens (entry : String × Value) : List Token :=
  word entry.1 :: .punctuator ':' :: entry.2.tokens

theorem valuesTokens_eq (values : List Value) :
    valuesTokens values = values.flatMap Value.tokens := by
  induction values with
  | nil => rfl
  | cons value rest ih => rw [valuesTokens, ih, List.flatMap_cons]

theorem entriesTokens_eq (entries : List (String × Value)) :
    entriesTokens entries = entries.flatMap entryTokens := by
  induction entries with
  | nil => rfl
  | cons entry rest ih =>
      rw [entriesTokens, ih, List.flatMap_cons]
      rfl

theorem validValues_iff (values : List Value) :
    ValidValues values ↔ ∀ value ∈ values, value.Valid := by
  induction values with
  | nil => simp [ValidValues]
  | cons value rest ih => simp [ValidValues, ih]

theorem validEntries_iff (entries : List (String × Value)) :
    ValidEntries entries ↔ ∀ entry ∈ entries, entry.2.Valid := by
  induction entries with
  | nil => simp [ValidEntries]
  | cons entry rest ih => simp [ValidEntries, ih]

theorem namedValue_sound (name : List Char) :
    (namedValue (String.ofList name)).tokens = [.name name] ∧
      (namedValue (String.ofList name)).Valid := by
  unfold namedValue
  split
  · next same => exact ⟨by rw [← word_ofList, same]; rfl, trivial⟩
  · split
    · next same => exact ⟨by rw [← word_ofList, same]; rfl, trivial⟩
    · split
      · next same => exact ⟨by rw [← word_ofList, same]; rfl, trivial⟩
      · next notTrue notFalse notNull =>
          exact ⟨by rw [← word_ofList]; rfl, notTrue, notFalse, notNull⟩

theorem parseEntry_sound {parse : Parser Value} (sound : Sound parse Value.tokens Value.Valid) :
    Sound (parseEntry parse) entryTokens fun entry => entry.2.Valid := by
  intro tokens entry rest success
  unfold parseEntry at success
  split at success
  · next name after =>
      split at success
      · next value last went =>
          cases success
          obtain ⟨followed, valid⟩ := sound _ _ _ went
          exact ⟨by rw [followed]; simp [entryTokens], valid⟩
      · cases success
  · cases success

theorem parseValue_sound (depth : Nat) : Sound (parseValue depth) Value.tokens Value.Valid := by
  induction depth with
  | zero =>
      intro tokens value rest success
      simp [parseValue] at success
  | succ depth ih =>
      intro tokens value rest success
      cases tokens with
      | nil => cases success
      | cons token others =>
          cases token with
          | punctuator char =>
              rw [parseValue] at success
              split at success
              · next opened =>
                  split at success
                  · next values after went =>
                      cases success
                      obtain ⟨followed, valid⟩ := parseUpTo_sound ih _ _ _ _ went
                      refine ⟨?_, (validValues_iff values).mpr valid⟩
                      rw [followed, opened, Value.tokens, enclosed, valuesTokens_eq]
                      rfl
                  · cases success
              · split at success
                · next opened =>
                    split at success
                    · next fields after went =>
                        cases success
                        obtain ⟨followed, valid⟩ :=
                          parseUpTo_sound (parseEntry_sound ih) _ _ _ _ went
                        refine ⟨?_, (validEntries_iff fields).mpr valid⟩
                        rw [followed, opened, Value.tokens, enclosed, entriesTokens_eq]
                        rfl
                    · cases success
                · split at success
                  · next dollar =>
                      unfold parseVariableName at success
                      split at success
                      · cases success
                        exact ⟨by rw [dollar]; simp [Value.tokens], trivial⟩
                      · cases success
                  · cases success
          | spread => cases success
          | name name =>
              cases success
              obtain ⟨written, valid⟩ := namedValue_sound name
              exact ⟨by rw [written]; rfl, valid⟩
          | int text =>
              cases success
              exact ⟨by simp [Value.tokens], trivial⟩
          | float text =>
              cases success
              exact ⟨by simp [Value.tokens], trivial⟩
          | string text =>
              cases success
              exact ⟨by simp [Value.tokens], trivial⟩
          | block text =>
              cases success
              exact ⟨by simp [Value.tokens], trivial⟩

theorem Value.tokens_cons (value : Value) :
    ∃ token tokens, value.tokens = token :: tokens ∧ token ≠ .punctuator ']' ∧
      token ≠ .punctuator closeBrace ∧ token ≠ .punctuator ')' := by
  cases value with
  | boolean value => exact ⟨_, _, rfl, nofun, nofun, nofun⟩
  | «variable» name => exact ⟨_, _, rfl, by decide, by decide, by decide⟩
  | list values => exact ⟨_, _, rfl, by decide, by decide, by decide⟩
  | object fields => exact ⟨_, _, rfl, by decide, by decide, by decide⟩
  | _ => exact ⟨_, _, rfl, nofun, nofun, nofun⟩

theorem entryTokens_takes {parse : Parser Value} {entry : String × Value} {rest : List Token}
    (takes : Takes parse entry.2.tokens entry.2 rest) :
    Takes (parseEntry parse) (entryTokens entry) entry rest := by
  unfold Takes at takes ⊢
  simp [entryTokens, word, parseEntry, takes]

theorem length_le_of_mem {Entry : Type u} {entry : Entry} {entries : List Entry}
    (write : Entry → List Token) (member : entry ∈ entries) :
    (write entry).length ≤ (entries.flatMap write).length := by
  induction entries with
  | nil => cases member
  | cons first others ih =>
      rw [List.flatMap_cons, List.length_append]
      rcases List.mem_cons.mp member with rfl | later
      · exact Nat.le_add_right _ _
      · exact (ih later).trans (Nat.le_add_left _ _)

theorem parseValue_takes {depth : Nat} {value : Value} (valid : value.Valid)
    (enough : value.tokens.length ≤ depth) (rest : List Token) :
    Takes (parseValue depth) value.tokens value rest := by
  induction depth generalizing value rest with
  | zero =>
      obtain ⟨token, tokens, written, _⟩ := value.tokens_cons
      rw [written] at enough
      cases enough
  | succ depth ih =>
      unfold Takes
      cases value with
      | list values =>
          have inner : ∀ each ∈ values, ∀ rest, True →
              Takes (parseValue depth) each.tokens each rest := by
            intro each member rest _
            refine ih ((validValues_iff values).mp valid each member) ?_ rest
            have within := length_le_of_mem Value.tokens member
            rw [Value.tokens, enclosed, valuesTokens_eq] at enough
            simp only [List.length_cons, List.length_append] at enough
            omega
          have begins : ∀ each ∈ values, ∃ token tokens,
              each.tokens = token :: tokens ∧ token ≠ .punctuator ']' := by
            intro each _
            obtain ⟨token, tokens, written, other, _⟩ := each.tokens_cons
            exact ⟨token, tokens, written, other⟩
          have went := parseUpTo_takes begins inner (fun _ _ _ => trivial) (fun _ => trivial) rest
          unfold Takes at went
          rw [Value.tokens, enclosed, valuesTokens_eq, List.cons_append, parseValue, if_pos rfl, went]
      | object fields =>
          have inner : ∀ each ∈ fields, ∀ rest, True →
              Takes (parseEntry (parseValue depth)) (entryTokens each) each rest := by
            intro each member rest _
            refine entryTokens_takes (ih ((validEntries_iff fields).mp valid each member) ?_ rest)
            have within := length_le_of_mem entryTokens member
            rw [Value.tokens, enclosed, entriesTokens_eq] at enough
            simp only [List.length_cons, List.length_append, entryTokens] at enough within
            omega
          have begins : ∀ each ∈ fields, ∃ token tokens,
              entryTokens each = token :: tokens ∧ token ≠ .punctuator closeBrace :=
            fun each _ => ⟨_, _, rfl, Token.noConfusion⟩
          have went := parseUpTo_takes begins inner (fun _ _ _ => trivial) (fun _ => trivial) rest
          unfold Takes at went
          rw [Value.tokens, enclosed, entriesTokens_eq, List.cons_append, parseValue,
            if_neg (by decide), if_pos rfl, went]
      | boolean value => cases value <;> simp [Value.tokens, parseValue, namedValue, word]
      | enum name =>
          obtain ⟨notTrue, notFalse, notNull⟩ := valid
          simp [Value.tokens, parseValue, word, namedValue, notTrue, notFalse, notNull]
      | «variable» name =>
          rw [Value.tokens, List.cons_append, parseValue, if_neg (by decide), if_neg (by decide),
            if_pos rfl]
          simp [word, parseVariableName]
      | null => simp [Value.tokens, parseValue, word, namedValue]
      | int text => simp [Value.tokens, parseValue]
      | float text => simp [Value.tokens, parseValue]
      | string text => simp [Value.tokens, parseValue]
      | block text => simp [Value.tokens, parseValue]

def TypeReference.Optional : TypeReference → Prop
  | .nonNull _ => False
  | _ => True

theorem TypeReference.valid_nonNull_iff (type : TypeReference) :
    (TypeReference.nonNull type).Valid ↔ type.Optional ∧ type.Valid := by
  cases type <;> simp [Valid, Optional]

theorem parseRequired_sound {type found : TypeReference} {tokens rest : List Token}
    (valid : type.Valid) (optional : type.Optional)
    (success : parseRequired type tokens = (found, rest)) :
    type.tokens ++ tokens = found.tokens ++ rest ∧ found.Valid := by
  cases tokens with
  | nil =>
      cases success
      exact ⟨rfl, valid⟩
  | cons token tokens =>
      rw [parseRequired] at success
      split at success
      · next required =>
          cases success
          refine ⟨?_, (TypeReference.valid_nonNull_iff type).mpr ⟨optional, valid⟩⟩
          rw [required, TypeReference.tokens, List.append_assoc]
          rfl
      · cases success
        exact ⟨rfl, valid⟩

theorem parseType_sound (depth : Nat) :
    Sound (parseType depth) TypeReference.tokens TypeReference.Valid := by
  induction depth with
  | zero => exact fun _ _ _ success => nomatch success
  | succ depth ih =>
      intro tokens type rest success
      unfold parseType at success
      split at success
      · next name after same =>
          have namedValid : (TypeReference.named (String.ofList name)).Valid := trivial
          obtain ⟨followed, valid⟩ :=
            parseRequired_sound namedValid trivial (Option.some.inj success)
          exact ⟨by rw [← followed]; simp [TypeReference.tokens], valid⟩
      · next inner after same =>
          cases same
          split at success
          · next element last went =>
              obtain ⟨elementFollowed, elementValid⟩ := ih _ _ _ went
              have listValid : (TypeReference.list element).Valid := elementValid
              obtain ⟨followed, valid⟩ :=
                parseRequired_sound listValid trivial (Option.some.inj success)
              refine ⟨?_, valid⟩
              rw [← followed, elementFollowed]
              simp [TypeReference.tokens, enclosed]
          · cases success
      · cases success

theorem parseRequired_nonNull (type : TypeReference) (rest : List Token) :
    parseRequired type (.punctuator '!' :: rest) = (.nonNull type, rest) := by
  simp [parseRequired]

theorem parseRequired_other (type : TypeReference) {rest : List Token}
    (ends : ∀ token ∈ rest.head?, token ≠ .punctuator '!') :
    parseRequired type rest = (type, rest) := by
  cases rest with
  | nil => rfl
  | cons token rest => simp [parseRequired, ends token rfl]

theorem parseType_optional {depth : Nat} {type : TypeReference} (valid : type.Valid)
    (optional : type.Optional) (enough : type.tokens.length ≤ depth) (rest : List Token) :
    parseType depth (type.tokens ++ rest) = some (parseRequired type rest) := by
  induction depth generalizing type rest with
  | zero =>
      cases type with
      | named name => cases enough
      | list element => cases enough
      | nonNull type => cases optional
  | succ depth ih =>
      cases type with
      | named name => simp [TypeReference.tokens, parseType, word]
      | nonNull type => cases optional
      | list element =>
          rw [TypeReference.tokens, enclosed] at enough ⊢
          simp only [List.length_cons, List.length_append, List.length_nil] at enough
          rw [List.cons_append, parseType]
          have elementValid : element.Valid := valid
          by_cases elementOptional : element.Optional
          · have went := ih elementValid elementOptional (by omega) (.punctuator ']' :: rest)
            rw [parseRequired_other _ (by simp)] at went
            simp [went]
          · cases element with
            | nonNull inner =>
                obtain ⟨innerOptional, innerValid⟩ :=
                  (TypeReference.valid_nonNull_iff inner).mp elementValid
                rw [TypeReference.tokens, List.length_append] at enough
                have went := ih innerValid innerOptional (by omega)
                  (.punctuator '!' :: .punctuator ']' :: rest)
                rw [parseRequired_nonNull] at went
                simp [TypeReference.tokens, went]
            | named name => exact absurd trivial elementOptional
            | list inner => exact absurd trivial elementOptional

theorem parseType_takes {depth : Nat} {type : TypeReference} (valid : type.Valid)
    (enough : type.tokens.length ≤ depth) {rest : List Token}
    (ends : ∀ token ∈ rest.head?, token ≠ .punctuator '!') :
    Takes (parseType depth) type.tokens type rest := by
  unfold Takes
  cases type with
  | nonNull inner =>
      obtain ⟨innerOptional, innerValid⟩ := (TypeReference.valid_nonNull_iff inner).mp valid
      rw [TypeReference.tokens, List.length_append] at enough
      rw [TypeReference.tokens, List.append_assoc,
        parseType_optional innerValid innerOptional (by omega)]
      exact congrArg some (parseRequired_nonNull inner rest)
  | named name =>
      rw [parseType_optional valid trivial enough, parseRequired_other _ ends]
  | list element =>
      rw [parseType_optional valid trivial enough, parseRequired_other _ ends]

def Ends (chars : List Char) (rest : List Token) : Prop :=
  ∀ token ∈ rest.head?, ∀ char ∈ chars, token ≠ .punctuator char

theorem Ends.cons {chars : List Char} {token : Token}
    (other : ∀ char ∈ chars, token ≠ .punctuator char) (rest : List Token) :
    Ends chars (token :: rest) := by
  intro next same
  cases same
  exact other

theorem Ends.punctuator {chars : List Char} {char : Char} (other : char ∉ chars)
    (rest : List Token) : Ends chars (.punctuator char :: rest) := by
  refine .cons (fun next member same => ?_) rest
  cases same
  exact other member

theorem Ends.of_subset {chars others : List Char} {rest : List Token} (ends : Ends chars rest)
    (subset : others ⊆ chars) : Ends others rest :=
  fun token next char member => ends token next char (subset member)

section Definitions

variable {depth : Nat}

theorem argumentsTokens_eq (arguments : List (String × Value)) :
    argumentsTokens arguments = writeEnclosed '(' ')' entryTokens arguments := by
  rw [argumentsTokens, writeEnclosed, entriesTokens_eq]

theorem parseArguments_sound : Sound (parseArguments depth) argumentsTokens ValidEntries := by
  intro tokens arguments rest success
  obtain ⟨followed, valid⟩ :=
    parseEnclosed_sound (parseEntry_sound (parseValue_sound depth)) _ _ _ _ _ success
  exact ⟨by rw [followed, argumentsTokens_eq], (validEntries_iff arguments).mpr valid⟩

theorem length_enclosed (opening closing : Char) (tokens : List Token) :
    (enclosed opening closing tokens).length = tokens.length + 2 := by
  simp [enclosed]

theorem parseArguments_takes {arguments : List (String × Value)} (valid : ValidEntries arguments)
    (enough : (argumentsTokens arguments).length ≤ depth) {rest : List Token}
    (ends : Ends ['('] rest) :
    Takes (parseArguments depth) (argumentsTokens arguments) arguments rest := by
  rw [argumentsTokens_eq] at enough ⊢
  have takes : ∀ each ∈ arguments, ∀ rest, True →
      Takes (parseEntry (parseValue depth)) (entryTokens each) each rest := by
    intro each member rest _
    refine entryTokens_takes (parseValue_takes ((validEntries_iff arguments).mp valid each member)
      ?_ rest)
    have within := length_le_of_mem entryTokens member
    have filled : arguments.isEmpty = false := by
      cases arguments with
      | nil => cases member
      | cons _ _ => rfl
    rw [writeEnclosed, filled, if_neg Bool.false_ne_true, length_enclosed] at enough
    simp only [entryTokens, List.length_cons] at within
    omega
  exact parseEnclosed_takes (fun each _ => ⟨_, _, rfl, Token.noConfusion⟩) takes
    (fun _ _ _ => trivial) (fun _ => trivial)
    (fun _ token next => ends token next '(' List.mem_cons_self)

theorem parseDirective_sound : Sound (parseDirective depth) Directive.tokens
    fun directive => ValidEntries directive.arguments := by
  intro tokens directive rest success
  unfold parseDirective at success
  split at success
  · next name after =>
      split at success
      · next arguments last went =>
          cases success
          obtain ⟨followed, valid⟩ := parseArguments_sound _ _ _ went
          exact ⟨by rw [followed]; simp [Directive.tokens], valid⟩
      · cases success
  · cases success

theorem parseDirectives_sound : Sound (parseDirectives depth) directivesTokens ValidDirectives :=
  parseWhile_sound parseDirective_sound _

theorem parseDirectives_takes {directives : List Directive} (valid : ValidDirectives directives)
    (enough : (directivesTokens directives).length ≤ depth) {rest : List Token}
    (ends : Ends ['(', '@'] rest) :
    Takes (parseDirectives depth) (directivesTokens directives) directives rest := by
  have takes : ∀ each ∈ directives, ∀ rest, Ends ['('] rest →
      Takes (parseDirective depth) each.tokens each rest := by
    intro each member rest ends
    have within := length_le_of_mem Directive.tokens member
    have own : (argumentsTokens each.arguments).length ≤ depth := by
      have whole : each.tokens.length ≤ depth := within.trans enough
      simp only [Directive.tokens, List.length_cons] at whole
      omega
    have went := parseArguments_takes (valid each member) own ends
    unfold Takes at went ⊢
    rw [Directive.tokens, word, List.cons_append, List.cons_append, parseDirective, went]
    simp
  exact parseWhile_takes (fun each _ => ⟨_, rfl⟩) takes
    (fun _ _ _ => .cons (List.all_iff_forall_prop.mp (by decide)) _)
    (ends.of_subset (by simp)) (fun token next => ends token next '@' (by simp))

theorem parseField_sound {aliased : Option String} {name : List Char} {tokens rest : List Token}
    {head : SelectionHead} (success : parseField depth aliased name tokens = some (head, rest)) :
    ∃ arguments, head = .field aliased (String.ofList name) arguments ∧
      tokens = argumentsTokens arguments ++ rest ∧ ValidEntries arguments := by
  unfold parseField at success
  split at success
  · next arguments after went =>
      cases success
      obtain ⟨followed, valid⟩ := parseArguments_sound _ _ _ went
      exact ⟨arguments, rfl, followed, valid⟩
  · cases success

theorem parseHead_sound : Sound (parseHead depth) SelectionHead.tokens SelectionHead.Valid := by
  intro tokens head rest success
  unfold parseHead at success
  split at success
  · next name after =>
      split at success
      · next on =>
          split at success
          · cases success
            refine ⟨?_, trivial⟩
            rw [on]
            simp [SelectionHead.tokens, word]
          · cases success
      · next other =>
          cases success
          refine ⟨by simp [SelectionHead.tokens], ?_⟩
          intro same
          exact other (by rw [← same, String.toList_ofList])
  · cases success
    exact ⟨rfl, trivial⟩
  · obtain ⟨arguments, rfl, followed, valid⟩ := parseField_sound success
    exact ⟨by rw [followed]; simp [SelectionHead.tokens], valid⟩
  · obtain ⟨arguments, rfl, followed, valid⟩ := parseField_sound success
    exact ⟨by rw [followed]; simp [SelectionHead.tokens], valid⟩
  · cases success

def SelectionHead.Precedes (head : SelectionHead) (rest : List Token) : Prop :=
  Ends ['(', ':'] rest ∧ (head = .inlineFragment none → ∀ name, .name name ∉ rest.head?)

theorem parseHead_takes {head : SelectionHead} (valid : head.Valid)
    (enough : head.tokens.length ≤ depth) {rest : List Token} (precedes : head.Precedes rest) :
    Takes (parseHead depth) head.tokens head rest := by
  obtain ⟨ends, unnamed⟩ := precedes
  unfold Takes
  cases head with
  | field aliased name arguments =>
      have own : (argumentsTokens arguments).length ≤ depth := by
        cases aliased with
        | none =>
            simp only [SelectionHead.tokens, List.length_cons] at enough
            omega
        | some aliased =>
            simp only [SelectionHead.tokens, List.length_cons] at enough
            omega
      have went := parseArguments_takes valid own (ends.of_subset (by simp))
      unfold Takes at went
      cases aliased with
      | some aliased => simp [SelectionHead.tokens, word, parseHead, parseField, went]
      | none =>
          have plain : parseHead depth (.name name.toList :: (argumentsTokens arguments ++ rest)) =
              parseField depth none name.toList (argumentsTokens arguments ++ rest) := by
            rw [parseHead]
            intro other after same
            cases arguments with
            | nil =>
                change rest = _ at same
                exact ends (.punctuator ':') (by rw [same]; rfl) ':' (by simp) rfl
            | cons _ _ => simp [argumentsTokens, enclosed] at same
          rw [SelectionHead.tokens, word, List.cons_append, plain]
          simp [parseField, went]
  | spread name =>
      have other : name.toList ≠ "on".toList := fun same => valid (String.toList_injective same)
      simp only [SelectionHead.tokens, word, List.cons_append, List.nil_append, parseHead]
      rw [if_neg other, String.ofList_toList]
  | inlineFragment typeCondition =>
      cases typeCondition with
      | some typeCondition =>
          simp [SelectionHead.tokens, word, parseHead]
      | none =>
          rw [SelectionHead.tokens, List.cons_append, List.nil_append, parseHead]
          intro name after same
          exact unnamed rfl name (by rw [same]; rfl)

theorem selectionsTokens_eq (selections : List Selection) :
    selectionsTokens selections = selections.flatMap Selection.tokens := by
  induction selections with
  | nil => rfl
  | cons selection rest ih => rw [selectionsTokens, ih, List.flatMap_cons]

theorem validSelections_iff (selections : List Selection) :
    ValidSelections selections ↔ ∀ selection ∈ selections, selection.Valid := by
  induction selections with
  | nil => simp [ValidSelections]
  | cons selection rest ih => simp [ValidSelections, ih]

theorem parseSet_sound {parse : Parser Selection}
    (sound : Sound parse Selection.tokens Selection.Valid) :
    Sound (parseSet parse) setTokens ValidSet := by
  intro tokens set rest success
  unfold parseSet at success
  split at success
  · next after went =>
      cases success
      obtain ⟨followed, _⟩ := parseEnclosed_sound sound _ _ _ _ _ went
      exact ⟨followed, trivial⟩
  · next selections after filled went =>
      cases success
      obtain ⟨followed, valid⟩ := parseEnclosed_sound sound _ _ _ _ _ went
      have nonempty : selections ≠ [] := filled
      refine ⟨?_, nonempty, (validSelections_iff selections).mpr valid⟩
      rw [followed, writeEnclosed, if_neg (by simpa using nonempty), setTokens,
        selectionsTokens_eq]
  · cases success

def EndsSelection (rest : List Token) : Prop := Ends ['(', ':', '@', openBrace] rest

theorem Selection.tokens_cons (selection : Selection) :
    ∃ token tokens, selection.tokens = token :: tokens ∧ ∀ char, token ≠ .punctuator char := by
  obtain ⟨head, directives, set⟩ := selection
  cases head with
  | field aliased name arguments =>
      cases aliased with
      | none => exact ⟨_, _, rfl, fun _ => Token.noConfusion⟩
      | some aliased => exact ⟨_, _, rfl, fun _ => Token.noConfusion⟩
  | spread name => exact ⟨_, _, rfl, fun _ => Token.noConfusion⟩
  | inlineFragment typeCondition =>
      cases typeCondition with
      | none => exact ⟨_, _, rfl, fun _ => Token.noConfusion⟩
      | some typeCondition => exact ⟨_, _, rfl, fun _ => Token.noConfusion⟩

theorem endsSelection_tokens (selection : Selection) (rest : List Token) :
    EndsSelection (selection.tokens ++ rest) := by
  obtain ⟨token, tokens, written, other⟩ := selection.tokens_cons
  rw [written]
  exact .cons (fun char _ => other char) _

theorem parseSet_takes {parse : Parser Selection} {set : Option (List Selection)}
    (valid : ValidSet set)
    (takes : ∀ selections ∈ set, ∀ selection ∈ selections, ∀ rest, EndsSelection rest →
      Takes parse selection.tokens selection rest)
    {rest : List Token} (ends : set = none → Ends [openBrace] rest) :
    Takes (parseSet parse) (setTokens set) set rest := by
  have begins : ∀ selection ∈ set.getD [], ∃ token tokens,
      selection.tokens = token :: tokens ∧ token ≠ .punctuator closeBrace := by
    intro selection _
    obtain ⟨token, tokens, written, other⟩ := selection.tokens_cons
    exact ⟨token, tokens, written, other closeBrace⟩
  have each : ∀ selection ∈ set.getD [], ∀ rest, EndsSelection rest →
      Takes parse selection.tokens selection rest := by
    intro selection member
    cases set with
    | none => cases member
    | some selections => exact takes selections rfl selection member
  have went := parseEnclosed_takes begins each
    (fun selection _ rest => endsSelection_tokens selection rest)
    (fun rest => .cons (List.all_iff_forall_prop.mp (by decide)) _)
    (fun empty token next => by
      cases set with
      | none => exact ends rfl token next openBrace List.mem_cons_self
      | some selections => exact absurd empty valid.1)
  unfold Takes at went ⊢
  cases set with
  | none =>
      change parseEnclosed parse openBrace closeBrace rest = some ([], rest) at went
      change parseSet parse rest = some (none, rest)
      rw [parseSet, went]
  | some selections =>
      cases selections with
      | nil => exact absurd rfl valid.1
      | cons first others =>
          change parseEnclosed parse openBrace closeBrace
            (enclosed openBrace closeBrace ((first :: others).flatMap Selection.tokens) ++ rest) =
              some (first :: others, rest) at went
          unfold parseSet
          rw [setTokens, selectionsTokens_eq, went]

theorem parseSelection_sound (level : Nat) :
    Sound (parseSelection depth level) Selection.tokens Selection.Valid := by
  induction level with
  | zero => exact fun _ _ _ success => nomatch success
  | succ level ih =>
      intro tokens selection rest success
      unfold parseSelection at success
      split at success
      · cases success
      · next head afterHead began =>
          split at success
          · cases success
          · next directives afterDirectives went =>
              split at success
              · cases success
              · next set last closed =>
                  split at success
                  · next allowed =>
                      cases success
                      obtain ⟨first, validHead⟩ := parseHead_sound _ _ _ began
                      obtain ⟨second, validDirectives⟩ := parseDirectives_sound _ _ _ went
                      obtain ⟨third, validSet⟩ := parseSet_sound ih _ _ _ closed
                      refine ⟨?_, validHead, validDirectives, allowed, validSet⟩
                      rw [first, second, third, Selection.tokens, List.append_assoc,
                        List.append_assoc]
                  · cases success

theorem length_setTokens {selections : List Selection} {selection : Selection}
    (member : selection ∈ selections) :
    selection.tokens.length + 2 ≤ (setTokens (some selections)).length := by
  rw [setTokens, length_enclosed, selectionsTokens_eq]
  exact Nat.add_le_add_right (length_le_of_mem Selection.tokens member) 2

theorem ends_set {chars : List Char} (set : Option (List Selection)) {rest : List Token}
    (other : openBrace ∉ chars) (ends : Ends chars rest) : Ends chars (setTokens set ++ rest) := by
  cases set with
  | some selections => exact .punctuator other _
  | none => exact ends

theorem ends_directives {chars : List Char} (directives : List Directive) {rest : List Token}
    (other : '@' ∉ chars) (ends : Ends chars rest) :
    Ends chars (directivesTokens directives ++ rest) := by
  cases directives with
  | cons directive more => exact .punctuator other _
  | nil => exact ends

theorem parseSelection_takes {level : Nat} {selection : Selection} (valid : selection.Valid)
    (enough : selection.tokens.length ≤ level) (within : selection.tokens.length ≤ depth)
    {rest : List Token} (ends : EndsSelection rest) :
    Takes (parseSelection depth level) selection.tokens selection rest := by
  induction level generalizing selection rest with
  | zero =>
      obtain ⟨token, tokens, written, _⟩ := selection.tokens_cons
      rw [written] at enough
      cases enough
  | succ level ih =>
      obtain ⟨head, directives, set⟩ := selection
      obtain ⟨validHead, validDirectives, allowed, validSet⟩ := valid
      rw [Selection.tokens] at enough within
      simp only [List.length_append] at enough within
      have headLength : 0 < head.tokens.length := by
        cases head with
        | field aliased name arguments => cases aliased <;> exact Nat.succ_pos _
        | spread name => exact Nat.succ_pos _
        | inlineFragment typeCondition => cases typeCondition <;> exact Nat.succ_pos _
      have precedes : head.Precedes (directivesTokens directives ++ (setTokens set ++ rest)) := by
        refine ⟨ends_directives directives (by decide)
          (ends_set set (by decide) (ends.of_subset (by simp))), ?_⟩
        rintro rfl name next
        -- an inline fragment has selections, so a directive or a brace comes next
        cases set with
        | none => cases allowed
        | some selections =>
            cases directives with
            | nil => cases next
            | cons directive more => cases next
      have first : Takes (parseHead depth) head.tokens head
          (directivesTokens directives ++ (setTokens set ++ rest)) :=
        parseHead_takes validHead (by omega) precedes
      have second : Takes (parseDirectives depth) (directivesTokens directives) directives
          (setTokens set ++ rest) :=
        parseDirectives_takes validDirectives (by omega)
          (ends_set set (by decide) (ends.of_subset (by simp)))
      have third : Takes (parseSet (parseSelection depth level)) (setTokens set) set rest := by
        refine parseSet_takes validSet ?_ fun _ => ends.of_subset (by simp)
        intro selections same inner member rest endsInner
        cases same
        have smaller := length_setTokens member
        exact ih ((validSelections_iff selections).mp validSet.2 inner member) (by omega) (by omega)
          endsInner
      unfold Takes at first second third ⊢
      unfold parseSelection
      rw [Selection.tokens, List.append_assoc, List.append_assoc, first]
      dsimp only
      rw [second]
      dsimp only
      rw [third]
      dsimp only
      rw [if_pos allowed]

theorem parseDefault_sound : Sound (parseDefault depth) defaultTokens
    fun defaultValue => ∀ value ∈ defaultValue, value.Valid := by
  intro tokens defaultValue rest success
  cases tokens with
  | nil =>
      cases success
      exact ⟨rfl, nofun⟩
  | cons token tokens =>
      rw [parseDefault] at success
      split at success
      · cases success
        exact ⟨rfl, nofun⟩
      · next equals =>
          split at success
          · next value after went =>
              cases success
              obtain ⟨followed, valid⟩ := parseValue_sound depth _ _ _ went
              refine ⟨by rw [not_not.mp equals, followed]; rfl, ?_⟩
              rintro _ ⟨⟩
              exact valid
          · cases success

theorem parseDefault_takes {defaultValue : Option Value}
    (valid : ∀ value ∈ defaultValue, value.Valid)
    (enough : (defaultTokens defaultValue).length ≤ depth) {rest : List Token}
    (ends : Ends ['='] rest) :
    Takes (parseDefault depth) (defaultTokens defaultValue) defaultValue rest := by
  unfold Takes
  cases defaultValue with
  | none =>
      cases rest with
      | nil => rfl
      | cons token rest =>
          have other : token ≠ .punctuator '=' := ends token rfl '=' (by simp)
          simp [defaultTokens, parseDefault, other]
  | some value =>
      rw [defaultTokens, List.length_cons] at enough
      have went : Takes (parseValue depth) value.tokens value rest :=
        parseValue_takes (valid value rfl) (by omega) rest
      unfold Takes at went
      rw [defaultTokens, List.cons_append, parseDefault, if_neg (not_not.mpr rfl), went]

theorem parseVariable_sound :
    Sound (parseVariable depth) VariableDefinition.tokens VariableDefinition.Valid := by
  intro tokens definition rest success
  unfold parseVariable at success
  split at success
  · split at success
    · cases success
    · next type afterType typed =>
        split at success
        · cases success
        · next defaultValue afterDefault valued =>
            split at success
            · cases success
            · next directives last went =>
                cases success
                obtain ⟨first, validType⟩ := parseType_sound depth _ _ _ typed
                obtain ⟨second, validDefault⟩ := parseDefault_sound _ _ _ valued
                obtain ⟨third, validDirectives⟩ := parseDirectives_sound _ _ _ went
                refine ⟨?_, validType, validDefault, validDirectives⟩
                rw [first, second, third]
                simp [VariableDefinition.tokens]
  · cases success

theorem parseVariable_takes {definition : VariableDefinition} (valid : definition.Valid)
    (enough : definition.tokens.length ≤ depth) {rest : List Token}
    (ends : Ends ['!', '=', '(', '@'] rest) :
    Takes (parseVariable depth) definition.tokens definition rest := by
  obtain ⟨name, type, defaultValue, directives⟩ := definition
  obtain ⟨validType, validDefault, validDirectives⟩ := valid
  dsimp only at validType validDefault validDirectives
  simp only [VariableDefinition.tokens, List.length_cons, List.length_append] at enough
  have endsDefault : ∀ token ∈ (defaultTokens defaultValue ++
      (directivesTokens directives ++ rest)).head?, token ≠ .punctuator '!' := by
    intro token next
    cases defaultValue with
    | none =>
        have ends : Ends ['!'] (directivesTokens directives ++ rest) :=
          ends_directives directives (by decide) (ends.of_subset (by simp))
        exact ends token next '!' (by simp)
    | some value =>
        cases next
        decide
  have first : Takes (parseType depth) type.tokens type
      (defaultTokens defaultValue ++ (directivesTokens directives ++ rest)) :=
    parseType_takes validType (by omega) endsDefault
  have second : Takes (parseDefault depth) (defaultTokens defaultValue) defaultValue
      (directivesTokens directives ++ rest) :=
    parseDefault_takes validDefault (by omega)
      (ends_directives directives (by decide) (ends.of_subset (by simp)))
  have third : Takes (parseDirectives depth) (directivesTokens directives) directives rest :=
    parseDirectives_takes validDirectives (by omega) (ends.of_subset (by simp))
  unfold Takes at first second third ⊢
  simp only [VariableDefinition.tokens, List.cons_append, List.append_assoc, word, parseVariable]
  rw [first]
  dsimp only
  rw [second]
  dsimp only
  rw [third]
  simp

theorem operationKind_sound {name : List Char} {kind : OperationKind}
    (success : operationKind name = some kind) : name = kind.text.toList := by
  have same : kind.text.toList = name := by simpa using List.find?_some success
  exact same.symm

theorem operationKind_text (kind : OperationKind) :
    operationKind kind.text.toList = some kind := by
  cases kind <;> decide

theorem writeEnclosed_variables (declared : List VariableDefinition) :
    (if declared.isEmpty then [] else enclosed '(' ')' (declared.flatMap (·.tokens))) =
      writeEnclosed '(' ')' VariableDefinition.tokens declared := rfl

theorem parseDefinitionHead_sound :
    Sound (parseDefinitionHead depth) DefinitionHead.tokens DefinitionHead.Valid := by
  intro tokens head rest success
  unfold parseDefinitionHead at success
  split at success
  · next keyword name after =>
      split at success
      · next kind known =>
          split at success
          · next declared last went =>
              cases success
              obtain ⟨followed, valid⟩ := parseEnclosed_sound parseVariable_sound _ _ _ _ _ went
              refine ⟨?_, valid⟩
              rw [operationKind_sound known, followed, DefinitionHead.tokens,
                writeEnclosed_variables]
              simp [word]
          · cases success
      · split at success
        · next on typeCondition last =>
            split at success
            · next words =>
                cases success
                refine ⟨?_, ?_⟩
                · rw [words.1, words.2.1]
                  simp [DefinitionHead.tokens, word]
                · intro same
                  exact words.2.2 (by rw [← same, String.toList_ofList])
            · cases success
        · cases success
  · cases success

theorem parseDefinitionHead_takes {head : DefinitionHead} (valid : head.Valid)
    (enough : head.tokens.length ≤ depth) {rest : List Token} (ends : Ends ['('] rest) :
    Takes (parseDefinitionHead depth) head.tokens head rest := by
  cases head with
  | fragment name typeCondition =>
      have other : name.toList ≠ "on".toList := fun same => valid (String.toList_injective same)
      have unknown : operationKind "fragment".toList = none := by decide
      unfold Takes
      simp only [DefinitionHead.tokens, word, List.cons_append, List.nil_append]
      rw [parseDefinitionHead, unknown]
      dsimp only
      rw [if_pos ⟨rfl, rfl, other⟩, String.ofList_toList, String.ofList_toList]
  | operation kind name declared =>
      simp only [DefinitionHead.tokens, List.length_cons] at enough
      have takes : ∀ each ∈ declared, ∀ rest, Ends ['!', '=', '(', '@'] rest →
          Takes (parseVariable depth) each.tokens each rest := by
        intro each member rest ends
        refine parseVariable_takes (valid each member) ?_ ends
        have within : each.tokens.length ≤ (declared.flatMap (·.tokens)).length :=
          length_le_of_mem VariableDefinition.tokens member
        have filled : declared.isEmpty = false := by
          cases declared with
          | nil => cases member
          | cons _ _ => rfl
        rw [filled, if_neg Bool.false_ne_true, length_enclosed] at enough
        omega
      have begins : ∀ each ∈ declared, ∃ token tokens,
          each.tokens = token :: tokens ∧ token ≠ .punctuator ')' :=
        fun each _ => ⟨_, _, rfl, by decide⟩
      have went : Takes (parseEnclosed (parseVariable depth) '(' ')')
          (writeEnclosed '(' ')' VariableDefinition.tokens declared) declared rest :=
        parseEnclosed_takes begins takes (fun _ _ _ => .punctuator (by decide) _)
          (fun _ => .punctuator (by decide) _) (fun _ token next => ends token next '(' (by simp))
      unfold Takes at went ⊢
      rw [DefinitionHead.tokens, writeEnclosed_variables, List.cons_append, List.cons_append]
      simp only [word, parseDefinitionHead, operationKind_text]
      rw [went]
      simp

end Definitions

theorem parseDefinition_eq_some_iff {tokens : List Token} {definition : Definition} :
    parseDefinition tokens = some definition ↔
      tokens = definition.tokens ∧ definition.Valid := by
  constructor
  · intro success
    unfold parseDefinition at success
    split at success
    · cases success
    · next head afterHead began =>
        split at success
        · cases success
        · next directives afterDirectives went =>
            split at success
            · next selections closed =>
                cases success
                obtain ⟨first, validHead⟩ := parseDefinitionHead_sound _ _ _ began
                obtain ⟨second, validDirectives⟩ := parseDirectives_sound _ _ _ went
                obtain ⟨third, validSet⟩ :=
                  parseSet_sound (parseSelection_sound tokens.length) _ _ _ closed
                refine ⟨?_, validHead, validDirectives, validSet⟩
                rw [first, second, third, List.append_nil]
                rfl
            · cases success
  · rintro ⟨rfl, validHead, validDirectives, validSet⟩
    obtain ⟨head, directives, selections⟩ := definition
    dsimp only at validHead validDirectives validSet
    have written : Definition.tokens ⟨head, directives, selections⟩ =
        head.tokens ++ (directivesTokens directives ++ setTokens (some selections)) := rfl
    generalize lengthEq : (Definition.tokens ⟨head, directives, selections⟩).length = depth
    have lengths := lengthEq
    rw [written] at lengths
    simp only [List.length_append] at lengths
    have first : Takes (parseDefinitionHead depth) head.tokens head
        (directivesTokens directives ++ (setTokens (some selections) ++ [])) :=
      parseDefinitionHead_takes validHead (by omega)
        (ends_directives directives (by decide) (.punctuator (by decide) _))
    have second : Takes (parseDirectives depth) (directivesTokens directives) directives
        (setTokens (some selections) ++ []) :=
      parseDirectives_takes validDirectives (by omega) (.punctuator (by decide) _)
    have third : Takes (parseSet (parseSelection depth depth)) (setTokens (some selections))
        (some selections) [] := by
      refine parseSet_takes validSet ?_ nofun
      intro inner same selection member rest ends
      cases same
      have smaller := length_setTokens member
      exact parseSelection_takes ((validSelections_iff selections).mp validSet.2 selection member)
        (by omega) (by omega) ends
    unfold Takes at first second third
    rw [List.append_nil] at first second third
    unfold parseDefinition
    rw [lengthEq, written, first]
    dsimp only
    rw [second]
    dsimp only
    rw [third]

end GraphQL
