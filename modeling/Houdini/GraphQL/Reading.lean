import Houdini.GraphQL.Definitions
import Mathlib.Data.Bool.AllAny

/-! Texts that are put together of parts: which tokens they are read as, whatever follows. -/

set_option autoImplicit false

namespace GraphQL

def endsToken (char : Char) : Bool :=
  !isNameContinue char && !(['.', '"', '+', '-'].contains char)

def Bounded (text : List Char) : Prop := ∀ char ∈ text.head?, endsToken char = true

theorem Bounded.nil : Bounded [] := nofun

theorem Bounded.cons {char : Char} (ends : endsToken char = true) (rest : List Char) :
    Bounded (char :: rest) := by
  intro first same
  cases same
  exact ends

def Opens (text : List Char) : Prop := ∀ rest, Bounded rest → Bounded (text ++ rest)

theorem Opens.nil : Opens [] := fun _ => id

theorem Opens.cons {char : Char} (ends : endsToken char = true) (text : List Char) :
    Opens (char :: text) := fun _ _ => .cons ends _

theorem Opens.append {text other : List Char} (opens : Opens text) (others : Opens other) :
    Opens (text ++ other) := by
  intro rest bounded
  rw [List.append_assoc]
  exact opens _ (others _ bounded)

def IsToken (token : Token) (text : List Char) : Prop :=
  scan text = .token token [] ∧ (token = .name text ∨ token = .int text ∨ token = .float text)

theorem takeWhile_bounded {text rest : List Char} (all : text.dropWhile isNameContinue = [])
    (bounded : Bounded rest) :
    (text ++ rest).takeWhile isNameContinue = text ∧
      (text ++ rest).dropWhile isNameContinue = rest := by
  induction text with
  | nil =>
      cases rest with
      | nil => exact ⟨rfl, rfl⟩
      | cons char rest =>
          have ends := bounded char rfl
          have other : isNameContinue char = false := by
            simp only [endsToken, Bool.and_eq_true, Bool.not_eq_true'] at ends
            exact ends.1
          simp [other]
  | cons char text ih =>
      have goes : isNameContinue char = true := by
        by_contra other
        simp [other] at all
      rw [List.dropWhile_cons, if_pos goes] at all
      obtain ⟨taken, left⟩ := ih all
      rw [List.cons_append, List.takeWhile_cons, List.dropWhile_cons, if_pos goes, if_pos goes,
        taken, left]
      exact ⟨rfl, rfl⟩

theorem readNumber_bounded {text rest : List Char} {previous : Char}
    (all : readNumber previous text = (text, [])) (bounded : Bounded rest) :
    readNumber previous (text ++ rest) = (text, rest) := by
  induction text generalizing previous with
  | nil =>
      cases rest with
      | nil => rfl
      | cons char rest =>
          have ends := bounded char rfl
          simp only [endsToken, Bool.and_eq_true, Bool.not_eq_true'] at ends
          obtain ⟨other, unsigned⟩ := ends
          simp at unsigned
          simp [readNumber, other, unsigned]
  | cons char text ih =>
      unfold readNumber at all
      split at all
      · next goes =>
          obtain ⟨taken, left⟩ := Prod.mk.inj all
          have inner : readNumber char text = (text, []) :=
            Prod.ext (List.cons.inj taken).2 left
          rw [List.cons_append, readNumber, if_pos goes, ih inner]
      · cases all

theorem scan_ignored {char : Char} (ignored : isIgnored char = true) (rest : List Char) :
    scan (char :: rest) = .skip rest := by
  have other : char ≠ '.' ∧ char ≠ '"' := by
    constructor <;> (rintro rfl; exact absurd ignored (by decide))
  rw [scan]
  · rw [if_pos ignored]
  · exact fun _ same => absurd same other.1
  · exact fun _ same => absurd same other.2
  · exact other.2

theorem scan_punctuator {char : Char} (mark : isPunctuator char = true) (rest : List Char) :
    scan (char :: rest) = .token (.punctuator char) rest := by
  have others : ∀ char ∈ ['!', '$', '&', '(', ')', ':', '=', '@', '[', ']', '|', openBrace,
      closeBrace], (char ≠ '.' ∧ char ≠ '"') ∧ isIgnored char = false ∧ char ≠ '#' :=
    List.all_iff_forall_prop.mp (by decide)
  obtain ⟨other, meaning, comment⟩ := others char (by simpa [isPunctuator] using mark)
  rw [scan]
  · rw [if_neg (by simp [meaning]), if_neg comment, if_pos mark]
  · exact fun _ same => absurd same other.1
  · exact fun _ same => absurd same other.2
  · exact other.2

theorem nameContinue_other {char : Char} (goes : isNameContinue char = true ∨ char = '-') :
    char ≠ '.' ∧ char ≠ '"' ∧ isIgnored char = false ∧ char ≠ '#' ∧ isPunctuator char = false := by
  have others : ∀ char ∈ ['.', '"', '#', ' ', '\t', '\n', '\r', ',', '\uFEFF', '!', '$', '&', '(',
      ')', ':', '=', '@', '[', ']', '|', openBrace, closeBrace],
      isNameContinue char = false ∧ char ≠ '-' := List.all_iff_forall_prop.mp (by decide)
  have apart (other : Char) (member : other ∈ ['.', '"', '#', ' ', '\t', '\n', '\r', ',', '\uFEFF',
      '!', '$', '&', '(', ')', ':', '=', '@', '[', ']', '|', openBrace, closeBrace]) :
      char ≠ other := by
    rintro rfl
    obtain ⟨unnamed, unsigned⟩ := others char member
    rcases goes with named | signed
    · rw [unnamed] at named
      cases named
    · exact unsigned signed
  refine ⟨apart _ (by simp), apart _ (by simp), ?_, apart _ (by simp), ?_⟩
  · simpa [isIgnored] using ⟨apart ' ' (by simp), apart '\t' (by simp), apart '\n' (by simp),
      apart '\r' (by simp), apart ',' (by simp), apart '\uFEFF' (by simp)⟩
  · simpa [isPunctuator] using ⟨apart '!' (by simp), apart '$' (by simp), apart '&' (by simp),
      apart '(' (by simp), apart ')' (by simp), apart ':' (by simp), apart '=' (by simp),
      apart '@' (by simp), apart '[' (by simp), apart ']' (by simp), apart '|' (by simp),
      apart openBrace (by simp), apart closeBrace (by simp)⟩

theorem scan_letter {char : Char} (letter : isLetter char = true) (rest : List Char) :
    scan (char :: rest) =
      .token (.name (char :: rest.takeWhile isNameContinue)) (rest.dropWhile isNameContinue) := by
  obtain ⟨dot, quote, meaning, comment, mark⟩ :=
    nameContinue_other (.inl (show isNameContinue char = true by simp [isNameContinue, letter]))
  rw [scan]
  · rw [if_neg (by simp [meaning]), if_neg comment, if_neg (by simp [mark]), if_pos letter]
  · exact fun _ same => absurd same dot
  · exact fun _ same => absurd same quote
  · exact quote

theorem scan_number {char : Char} (other : isLetter char = false)
    (digit : (isDigit char || decide (char = '-')) = true) (rest : List Char) :
    scan (char :: rest) =
      match numberToken (char :: (readNumber char rest).1) with
      | some token => .token token (readNumber char rest).2
      | none => .failed := by
  have goes : isNameContinue char = true ∨ char = '-' := by
    simpa [isNameContinue, other] using digit
  obtain ⟨dot, quote, meaning, comment, mark⟩ := nameContinue_other goes
  rw [scan]
  · rewrite [if_neg (by simp [meaning]), if_neg comment, if_neg (by simp [mark]),
      if_neg (by simp [other]), if_pos digit]
    cases numberToken (char :: (readNumber char rest).1) <;> rfl
  · exact fun _ same => absurd same dot
  · exact fun _ same => absurd same quote
  · exact quote

theorem IsToken.scan {token : Token} {text rest : List Char} (isToken : IsToken token text)
    (bounded : Bounded rest) : GraphQL.scan (text ++ rest) = .token token rest := by
  obtain ⟨scanned, kind⟩ := isToken
  revert scanned
  fun_cases GraphQL.scan text with
  | case1 | case4 | case6 | case7 | case8 | case12 | case13 =>
      intro scanned
      cases scanned
  | case2 | case3 | case5 | case9 =>
      rintro ⟨⟩
      simp at kind
  | case10 char text _ _ _ _ _ _ letter =>
      intro scanned
      obtain ⟨same, left⟩ := Scan.token.inj scanned
      obtain ⟨taken, after⟩ := takeWhile_bounded left bounded
      have all : text.takeWhile isNameContinue = text := by
        have whole : text.takeWhile isNameContinue ++ text.dropWhile isNameContinue = text :=
          List.takeWhile_append_dropWhile
        rwa [left, List.append_nil] at whole
      rw [List.cons_append, scan_letter letter, taken, after, ← same, all]
  | case11 char text _ _ _ _ _ _ letter digit found number =>
      intro scanned
      obtain ⟨rfl, left⟩ := Scan.token.inj scanned
      have whole : (readNumber char text).1 = text := by
        unfold numberToken at number
        split at number
        · cases number
          simpa using kind
        · split at number
          · cases number
            simpa using kind
          · cases number
      have all : readNumber char text = (text, []) := Prod.ext whole left
      rw [List.cons_append, scan_number (by simpa using ‹¬ isLetter char = true›) digit,
        readNumber_bounded all bounded]
      rw [whole] at number
      simp only [number]

/-- The part is read as some tokens, whatever follows, as long as it is fine. One that is not is
read as something else. -/
def Reads (text : List Char) (tokens : List Token) (fine : Prop) : Prop :=
  ∀ rest, Bounded rest → ∀ others,
    lex (text ++ rest) = some (tokens ++ others) ↔ fine ∧ lex rest = some others

namespace Reads

variable {text other : List Char} {tokens others : List Token} {fine fines : Prop}

theorem nil : Reads [] [] True := by
  intro rest _ others
  simp

theorem congr {fine' : Prop} (reads : Reads text tokens fine) (same : fine ↔ fine') :
    Reads text tokens fine' := by
  intro rest bounded others
  rw [reads rest bounded others, same]

theorem append (first : Reads text tokens fine) (second : Reads other others fines)
    (opens : Opens other) : Reads (text ++ other) (tokens ++ others) (fine ∧ fines) := by
  intro rest bounded more
  rw [List.append_assoc, List.append_assoc, first _ (opens rest bounded), second rest bounded,
    and_assoc]

theorem map_cons_eq_some_iff {token : Token} {found : Option (List Token)} :
    found.map (token :: ·) = some (token :: others) ↔ found = some others := by
  cases found <;> simp

theorem token {token : Token} (chars : List Char)
    (scanned : ∀ rest, Bounded rest → scan (chars ++ (text ++ rest)) = .token token (text ++ rest))
    (reads : Reads text tokens fine) : Reads (chars ++ text) (token :: tokens) fine := by
  intro rest bounded others
  rw [List.append_assoc, lex_token (scanned rest bounded), List.cons_append,
    map_cons_eq_some_iff, reads rest bounded]

theorem punctuator {char : Char} (mark : isPunctuator char = true)
    (reads : Reads text tokens fine) : Reads (char :: text) (.punctuator char :: tokens) fine :=
  token [char] (fun _ _ => scan_punctuator mark _) reads

theorem ignored {char : Char} (ignored : isIgnored char = true) (reads : Reads text tokens fine) :
    Reads (char :: text) tokens fine := by
  intro rest bounded others
  rw [List.cons_append, lex_skip (scan_ignored ignored _), reads rest bounded]

theorem skip {chars : List Char} (all : ∀ char ∈ chars, isIgnored char = true)
    (reads : Reads text tokens fine) : Reads (chars ++ text) tokens fine := by
  induction chars with
  | nil => exact reads
  | cons char chars ih =>
      exact ignored (all char List.mem_cons_self)
        (ih fun other member => all other (List.mem_cons_of_mem _ member))

theorem otherwise {char : Char} {token : Token} (mark : isPunctuator char = true)
    (apart : token ≠ .punctuator char) (text : List Char) (tokens : List Token) :
    Reads (char :: text) (token :: tokens) False := by
  intro rest _ others
  refine iff_of_false (fun success => ?_) And.left
  rw [List.cons_append, lex_token (scan_punctuator mark _)] at success
  obtain ⟨_, _, same⟩ := Option.map_eq_some_iff.mp success
  exact apart (List.cons.inj same).1.symm

theorem spread (reads : Reads text tokens fine) :
    Reads ('.' :: '.' :: '.' :: text) (.spread :: tokens) fine :=
  token ['.', '.', '.'] (fun _ _ => by simp [scan]) reads

theorem word {token : Token} {chars : List Char} (isToken : IsToken token chars)
    (reads : Reads text tokens fine) (opens : Opens text) :
    Reads (chars ++ text) (token :: tokens) fine :=
  Reads.token chars (fun rest bounded => isToken.scan (opens rest bounded)) reads

theorem single {token : Token} {chars : List Char} (isToken : IsToken token chars) :
    Reads chars [token] True := by
  have reads := word isToken nil .nil
  rwa [List.append_nil] at reads

theorem closing {char : Char} (mark : isPunctuator char = true) :
    Reads [char] [.punctuator char] True :=
  punctuator mark nil

theorem enclose {opening closing : Char} (opens : isPunctuator opening = true)
    (closes : isPunctuator closing = true) (reads : Reads text tokens fine) :
    Reads (opening :: (text ++ [closing])) (enclosed opening closing tokens) fine := by
  have bounded : Opens [closing] := by
    refine .cons ?_ []
    have all : ∀ char ∈ ['!', '$', '&', '(', ')', ':', '=', '@', '[', ']', '|', openBrace,
        closeBrace], endsToken char = true := List.all_iff_forall_prop.mp (by decide)
    exact all closing (by simpa [isPunctuator] using closes)
  exact punctuator opens ((reads.append (Reads.closing closes) bounded).congr (by rw [and_true]))

end Reads

inductive ReadsEach : List (List Char) → List Token → Prop → Prop
  | nil : ReadsEach [] [] True
  | cons {text : List Char} {texts : List (List Char)} {tokens others : List Token}
      {fine fines : Prop} (first : Reads text tokens fine) (rest : ReadsEach texts others fines) :
      ReadsEach (text :: texts) (tokens ++ others) (fine ∧ fines)

namespace ReadsEach

theorem congr {texts : List (List Char)} {tokens : List Token} {fine fine' : Prop}
    (each : ReadsEach texts tokens fine) (same : fine ↔ fine') : ReadsEach texts tokens fine' := by
  rw [← propext same]
  exact each

theorem intercalate {texts : List (List Char)} {tokens : List Token} {fine : Prop}
    (each : ReadsEach texts tokens fine) {char : Char} {chars : List Char}
    (ends : endsToken char = true) (ignored : ∀ separator ∈ char :: chars,
      isIgnored separator = true) :
    Reads ((char :: chars).intercalate texts) tokens fine := by
  induction each with
  | nil => exact Reads.nil
  | @cons text texts tokens others fine fines first rest ih =>
      cases rest with
      | nil =>
          rw [List.append_nil, List.intercalate_singleton]
          exact first.congr (and_iff_left trivial).symm
      | @cons next texts _ _ _ _ second rest =>
          rw [List.intercalate_cons_cons, List.append_assoc]
          exact first.append (Reads.skip ignored ih) (.cons ends _)

end ReadsEach

end GraphQL
