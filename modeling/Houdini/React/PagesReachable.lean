import Houdini.Data.SplitText
import Houdini.React.Manifest
import Houdini.React.PatternReading
import Mathlib.Algebra.Order.BigOperators.Group.List
import Mathlib.Algebra.Order.Group.Nat
import Mathlib.Algebra.Ring.Nat
import Mathlib.Data.List.TakeWhile

/-! Every page is found by its urls, as long as ids and patterns of pages keep apart. -/

set_option autoImplicit false

namespace Houdini.React

open Houdini.Runtime (decodeURIComponent_plain)

def RouteSegment.fixedCount (counts : Char → Bool) : RouteSegment → Nat
  | .fixed text => text.countP counts
  | .param _ => 0
  | .optional _ => 0
  | .rest _ => 0

def capturedCount (counts : Char → Bool) (captured : List (Option UrlText)) : Nat :=
  (captured.map fun value => (value.getD []).countP counts).sum

theorem captureFirst_eq_some {next : UrlText → Option (List (Option UrlText))}
    {ways : List (UrlText × UrlText)} {captured : List (Option UrlText)}
    (found : captureFirst next ways = some captured) :
    ∃ way ∈ ways, ∃ later, next way.2 = some later ∧ captured = some way.1 :: later := by
  obtain ⟨way, member, went⟩ := List.exists_of_findSome?_eq_some found
  obtain ⟨later, isLater, same⟩ := Option.map_eq_some_iff.mp went
  exact ⟨way, member, later, isLater, same.symm⟩

theorem captureBehindSlash_eq_some {next : UrlText → Option (List (Option UrlText))}
    {ways : UrlText → List (UrlText × UrlText)} {text : UrlText}
    {captured : List (Option UrlText)}
    (split : ∀ inner, ∀ way ∈ ways inner, inner = way.1 ++ way.2)
    (found : captureBehindSlash next ways text = some captured) :
    ∃ value left later, text = '/' :: (value ++ left) ∧ next left = some later ∧
      captured = some value :: later := by
  cases text with
  | nil => cases found
  | cons char inner =>
      rw [captureBehindSlash] at found
      split at found
      · next slash =>
          obtain ⟨⟨value, left⟩, member, later, isLater, same⟩ := captureFirst_eq_some found
          exact ⟨value, left, later, by rw [slash, split inner _ member], isLater, same⟩
      · cases found

theorem countP_captureSegments {counts : Char → Bool} (other : counts '/' = false) {segments : List RouteSegment}
    {text : UrlText} {captured : List (Option UrlText)}
    (found : captureSegments segments text = some captured) :
    text.countP counts =
      (segments.map (RouteSegment.fixedCount counts)).sum + capturedCount counts captured := by
  have notSlash : ¬ counts '/' = true := Bool.eq_false_iff.mp other
  induction segments generalizing text captured with
  | nil =>
      rw [captureSegments] at found
      split at found
      · next ends =>
          cases found
          rcases ends with rfl | rfl
          · rfl
          · simp [other, capturedCount]
      · cases found
  | cons segment after ih =>
      have behind {value left : UrlText} {later : List (Option UrlText)} (name : RouteSegment)
          (none : name.fixedCount counts = 0) (isLater : captureSegments after left = some later) :
          ('/' :: (value ++ left)).countP counts =
            ((name :: after).map (RouteSegment.fixedCount counts)).sum +
              capturedCount counts (some value :: later) := by
        rw [List.countP_cons_of_neg notSlash, List.countP_append, ih isLater, List.map_cons,
          List.sum_cons, none, capturedCount, capturedCount, List.map_cons, List.sum_cons,
          Option.getD_some]
        omega
      have skipped (name : RouteSegment) (none : name.fixedCount counts = 0)
          (went : ((captureSegments after text).map (Option.none :: ·)) = some captured) :
          text.countP counts = ((name :: after).map (RouteSegment.fixedCount counts)).sum +
            capturedCount counts captured := by
        obtain ⟨later, isLater, rfl⟩ := Option.map_eq_some_iff.mp went
        rw [ih isLater, List.map_cons, List.sum_cons, none, capturedCount, capturedCount,
          List.map_cons, List.sum_cons]
        simp
      cases segment with
      | fixed fixed =>
          rw [captureSegments] at found
          split at found
          · cases found
          · next left dropped =>
              obtain ⟨_, whole, equal⟩ := List.dropPrefix?_eq_some_iff.mp dropped
              rw [beq_iff_eq] at equal
              subst equal
              rw [whole, List.countP_append, List.countP_cons_of_neg notSlash, ih found,
                List.map_cons, List.sum_cons, RouteSegment.fixedCount]
              omega
      | param name =>
          rw [captureSegments] at found
          obtain ⟨value, left, later, rfl, isLater, rfl⟩ := captureBehindSlash_eq_some
            (fun _ _ member => (mem_someSplits.mp member).1) found
          exact behind _ rfl isLater
      | optional name =>
          rw [captureSegments, Option.or_eq_some_iff] at found
          rcases found with found | ⟨_, went⟩
          · obtain ⟨value, left, later, rfl, isLater, rfl⟩ := captureBehindSlash_eq_some
              (fun _ _ member => (mem_someSplits.mp (List.mem_reverse.mp member)).1) found
            exact behind _ rfl isLater
          · exact skipped _ rfl went
      | rest name =>
          rw [captureSegments, Option.or_eq_some_iff] at found
          rcases found with found | ⟨_, went⟩
          · obtain ⟨value, left, later, rfl, isLater, rfl⟩ := captureBehindSlash_eq_some
              (fun _ _ member => (mem_splits.mp (List.mem_reverse.mp member)).1) found
            exact behind _ rfl isLater
          · exact skipped _ rfl went

def RouteDir.segments (dir : RouteDir) : List RouteSegment :=
  (routeSegments dir.page.url).map parseSegment

def RouteDir.pattern (dir : RouteDir) : PagePattern := (parsePagePattern dir.page.url).1

def RouteDir.urlWith (values : UrlText → UrlText) (dir : RouteDir) : UrlText :=
  if dir.segments = [] then ['/'] else filledPath values dir.segments

def PagePattern.covers : PagePattern → List UrlToken → Bool
  | .root, tokens => tokens.isEmpty
  | .segments route, tokens => Houdini.React.covers route tokens

theorem parseSegment_eq_fixed {segment text : UrlText}
    (parsed : parseSegment segment = .fixed text) : segment = text := by
  unfold parseSegment at parsed
  split at parsed
  · cases parsed
  · split at parsed
    · cases parsed
    · split at parsed
      · cases parsed
      · exact RouteSegment.fixed.inj parsed

theorem fixed_mem_segments {dir : RouteDir} {text : UrlText}
    (member : .fixed text ∈ dir.segments) : text ≠ [] ∧ '/' ∉ text := by
  obtain ⟨segment, among, parsed⟩ := List.mem_map.mp member
  rw [parseSegment_eq_fixed parsed] at among
  obtain ⟨isPart, kept⟩ := List.mem_filter.mp among
  refine ⟨?_, not_mem_of_mem_splitOn isPart⟩
  rintro rfl
  cases kept

theorem segments_eq_nil_of_root {dir : RouteDir} (root : dir.page.url = ['/']) :
    dir.segments = [] := by
  rw [RouteDir.segments, root]
  decide

theorem pattern_eq (dir : RouteDir) :
    dir.pattern = if dir.page.url = ['/'] then .root else .segments dir.segments := by
  unfold RouteDir.pattern parsePagePattern
  split <;> rfl

theorem regexEscape_any (text : UrlText) :
    (regexEscape text).any isLineTerminator = text.any isLineTerminator := by
  rw [regexEscape, List.any_flatMap]
  congr 1
  funext char
  split
  · rw [List.any_cons, List.any_cons, List.any_nil, Bool.or_false]
    rfl
  · rw [List.any_cons, List.any_nil, Bool.or_false]

theorem source_any_eq_false {segment : RouteSegment} :
    segment.source.any isLineTerminator = false ↔
      ∀ text, segment = .fixed text → ∀ char ∈ text, isLineTerminator char = false := by
  cases segment with
  | fixed text =>
      have slash : isLineTerminator '\\' = false ∧ isLineTerminator '/' = false := by decide
      have source : (RouteSegment.fixed text).source = '\\' :: '/' :: regexEscape text := rfl
      rw [source, List.any_cons, List.any_cons, regexEscape_any, slash.1, slash.2,
        Bool.false_or, Bool.false_or, List.any_eq_false]
      constructor
      · intro clean other same char member
        rw [← RouteSegment.fixed.inj same] at member
        exact Bool.eq_false_iff.mpr (clean char member)
      · intro clean char member
        exact Bool.eq_false_iff.mp (clean text rfl char member)
  | param name =>
      have clean : "\\/([^/]+?)".toList.any isLineTerminator = false := by decide
      exact iff_of_true clean nofun
  | optional name =>
      have clean : "(?:\\/([^/]+))?".toList.any isLineTerminator = false := by decide
      exact iff_of_true clean nofun
  | rest name =>
      have clean : "(?:\\/(.*))?".toList.any isLineTerminator = false := by decide
      exact iff_of_true clean nofun

theorem isLiteral_iff (dir : RouteDir) :
    dir.pattern.isLiteral = true ↔
      ∀ text, .fixed text ∈ dir.segments → ∀ char ∈ text, isLineTerminator char = false := by
  rw [pattern_eq]
  split
  · next root =>
      rw [segments_eq_nil_of_root root]
      exact iff_of_true (by decide) nofun
  · have before : "/^".toList.any isLineTerminator = false := by decide
    have behind : "\\/?$/".toList.any isLineTerminator = false := by decide
    rw [PagePattern.isLiteral, PagePattern.source, List.any_append, List.any_append, before,
      behind, Bool.false_or, Bool.or_false, List.any_flatMap, Bool.not_eq_true',
      List.any_eq_false]
    constructor
    · intro all text member
      exact source_any_eq_false.mp (Bool.eq_false_iff.mpr (all _ member)) text rfl
    · intro all segment member
      refine Bool.eq_false_iff.mp (source_any_eq_false.mpr fun text same => ?_)
      rw [same] at member
      exact all text member

/-- Letters and digits. Beyond ASCII these are among the characters that do not end lines. -/
def isLetterOrDigit (char : Char) : Bool :=
  char.isAlphanum || (127 < char.toNat && !isLineTerminator char)

/-- The directories of a project. -/
structure Routes where
  dirs : List RouteDir
  nodup : dirs.Nodup

namespace Routes

def pageDirs (routes : Routes) : List RouteDir := routes.dirs.filter (·.hasPage)

structure Fresh (routes : Routes) (values : UrlText → UrlText) : Prop where
  nonempty : ∀ name, values name ≠ []
  letters : ∀ name, ∀ char ∈ values name, isLetterOrDigit char = true
  fresh : ∀ name, ∀ dir ∈ routes.dirs, .fixed (values name) ∉ dir.segments

variable {routes : Routes} {values : UrlText → UrlText}

theorem Fresh.not_mem (fresh : routes.Fresh values) {char : Char}
    (other : isLetterOrDigit char = false) (name : UrlText) : char ∉ values name := by
  intro member
  rw [fresh.letters name char member] at other
  cases other

theorem not_letter_of_isLineTerminator {char : Char} (ends : isLineTerminator char = true) :
    isLetterOrDigit char = false := by
  have known : char.isAlphanum = false := by
    unfold isLineTerminator at ends
    rw [Bool.or_eq_true, Bool.or_eq_true, Bool.or_eq_true] at ends
    rcases ends with ((newline | return') | separator) | separator
    · rw [of_decide_eq_true newline]
      decide
    · rw [of_decide_eq_true return']
      decide
    · have same : char = Char.ofNat 0x2028 := by
        rw [← of_decide_eq_true separator, Char.ofNat_toNat]
      rw [same]
      decide
    · have same : char = Char.ofNat 0x2029 := by
        rw [← of_decide_eq_true separator, Char.ofNat_toNat]
      rw [same]
      decide
  rw [isLetterOrDigit, known, ends, Bool.not_true, Bool.and_false, Bool.or_false]

theorem not_letter_of_beq {symbol : Char} (other : isLetterOrDigit symbol = false) (char : Char)
    (same : (char == symbol) = true) : isLetterOrDigit char = false := by
  rw [beq_iff_eq.mp same]
  exact other

theorem Fresh.isProper (fresh : routes.Fresh values) (name : UrlText) :
    IsProper (values name) where
  nonempty := fresh.nonempty name
  plain := fresh.not_mem (by decide) name
  oneLine := by
    intro char member
    cases ends : isLineTerminator char with
    | false => rfl
    | true => exact absurd member (fresh.not_mem (not_letter_of_isLineTerminator ends) name)

theorem exists_fresh (routes : Routes) : ∃ values, routes.Fresh values := by
  let lengths := (routes.dirs.flatMap RouteDir.segments).map fun segment =>
    (segment.filled id).length
  refine ⟨fun _ => List.replicate (lengths.sum + 1) 'a', fun _ => nofun, fun _ char member => ?_,
    fun _ dir among member => ?_⟩
  · rw [List.eq_of_mem_replicate member]
    decide
  · have long : (List.replicate (lengths.sum + 1) 'a').length ∈ lengths :=
      List.mem_map.mpr ⟨_, List.mem_flatMap.mpr ⟨dir, among, member⟩, rfl⟩
    have bounded := List.le_sum_of_mem long
    rw [List.length_replicate] at bounded
    omega

theorem Fresh.filled (fresh : routes.Fresh values) {dir : RouteDir}
    (oneLine : dir.pattern.isLiteral = true) {segment : RouteSegment}
    (member : segment ∈ dir.segments) : IsProper (segment.filled values) := by
  cases segment with
  | fixed text =>
      obtain ⟨nonempty, plain⟩ := fixed_mem_segments member
      exact ⟨nonempty, plain, (isLiteral_iff dir).mp oneLine text member⟩
  | param name => exact fresh.isProper name
  | optional name => exact fresh.isProper name
  | rest name => exact fresh.isProper name

theorem Fresh.captures_iff (fresh : routes.Fresh values) {reader dir : RouteDir}
    (known : reader ∈ routes.dirs) (oneLine : dir.pattern.isLiteral = true) :
    (reader.pattern.captures (dir.urlWith values)).isSome = true ↔
      reader.pattern.covers (dir.segments.map RouteSegment.token) = true := by
  have proper : ∀ segment ∈ dir.segments, IsProper (segment.filled values) :=
    fun _ member => fresh.filled oneLine member
  have other : ∀ text, .fixed text ∈ reader.segments → ∀ segment ∈ dir.segments,
      segment.filled values = text → segment = .fixed text := by
    intro text member segment _ same
    cases segment with
    | fixed own => exact congrArg _ same
    | param name =>
        subst same
        exact absurd member (fresh.fresh name reader known)
    | optional name =>
        subst same
        exact absurd member (fresh.fresh name reader known)
    | rest name =>
        subst same
        exact absurd member (fresh.fresh name reader known)
  have reads {ending : UrlText} (ends : ending = [] ∨ ending = ['/'] ∧ dir.segments = []) :=
    @reads_filledPath_iff _ _ reader.segments proper
      (fun _ member => fixed_mem_segments member) other _ ends
  rw [pattern_eq]
  split
  · rw [PagePattern.captures, PagePattern.covers, List.isEmpty_iff, List.map_eq_nil_iff,
      RouteDir.urlWith]
    split
    · next none => exact iff_of_true rfl none
    · next some =>
        refine iff_of_false ?_ some
        cases segments : dir.segments with
        | nil => exact absurd segments some
        | cons segment rest =>
            have nonempty := (proper segment (segments ▸ List.mem_cons_self)).nonempty
            simp [filledPath_cons, nonempty]
  · rw [PagePattern.captures, PagePattern.covers, RouteDir.urlWith]
    split
    · next none =>
        have root := reads (Or.inr ⟨rfl, none⟩)
        rw [none] at root ⊢
        exact root
    · have path := reads (Or.inl rfl)
      rw [List.append_nil] at path
      exact path

theorem Fresh.countP_urlWith (fresh : routes.Fresh values) {counts : Char → Bool}
    (other : counts '/' = false)
    (symbol : ∀ char, counts char = true → isLetterOrDigit char = false) (dir : RouteDir) :
    (dir.urlWith values).countP counts = (dir.segments.map (RouteSegment.fixedCount counts)).sum := by
  have notSlash : ¬ counts '/' = true := Bool.eq_false_iff.mp other
  have clean (name : UrlText) : ∀ char ∈ values name, ¬ counts char = true :=
    fun char member counted => fresh.not_mem (symbol char counted) name member
  have filled (segments : List RouteSegment) : (filledPath values segments).countP counts =
      (segments.map (RouteSegment.fixedCount counts)).sum := by
    induction segments with
    | nil => rfl
    | cons segment rest ih =>
        have own : (segment.filled values).countP counts = segment.fixedCount counts := by
          cases segment with
          | fixed text => rfl
          | param name => exact List.countP_eq_zero.mpr (clean name)
          | optional name => exact List.countP_eq_zero.mpr (clean name)
          | rest name => exact List.countP_eq_zero.mpr (clean name)
        rw [filledPath_cons, List.countP_cons_of_neg notSlash, List.countP_append, ih, own,
          List.map_cons, List.sum_cons]
  rw [RouteDir.urlWith]
  split
  · next none =>
      rw [none, List.countP_cons_of_neg notSlash]
      rfl
  · exact filled dir.segments

theorem countP_captures {counts : Char → Bool} (other : counts '/' = false) {dir : RouteDir}
    {text : UrlText} {captured : List (Option UrlText)} (found : dir.pattern.captures text = some captured) :
    text.countP counts =
      (dir.segments.map (RouteSegment.fixedCount counts)).sum + capturedCount counts captured := by
  have notSlash : ¬ counts '/' = true := Bool.eq_false_iff.mp other
  rw [pattern_eq] at found
  split at found
  · next root =>
      rw [PagePattern.captures] at found
      split at found
      · next same =>
          cases found
          rw [same, segments_eq_nil_of_root root, List.countP_cons_of_neg notSlash]
          rfl
      · cases found
  · exact countP_captureSegments other found

theorem exec_ok {captured : List (Option UrlText)} (plain : capturedCount (· == '%') captured = 0)
    (params : List RouteParam) : ∃ matched, exec captured params = .ok matched := by
  have clean : ∀ capture ∈ captured.zip params, ∀ value, capture.1 = some value → '%' ∉ value := by
    intro capture member value same
    have among : capture.1 ∈ captured := (List.of_mem_zip member).1
    have zero := List.sum_eq_zero_iff.mp plain _ (List.mem_map_of_mem among)
    rw [same] at zero
    exact List.count_eq_zero.mp zero
  unfold exec
  generalize captured.zip params = captures at clean
  generalize (∅ : OrderedMap UrlText UrlText) = result
  induction captures generalizing result with
  | nil => exact ⟨result, rfl⟩
  | cons capture rest ih =>
      rw [List.forall_mem_cons] at clean
      obtain ⟨value, param⟩ := capture
      cases value with
      | none => exact ih clean.2 _
      | some text =>
          obtain ⟨matched, went⟩ := ih clean.2 (assign result param.name text)
          refine ⟨matched, ?_⟩
          have recorded : record result (some text, param) =
              .ok (assign result param.name text) := by
            simp only [record, decodeURIComponent_plain (clean.1 text rfl)]
          rw [List.foldlM_cons, recorded]
          exact went

theorem key_of_mem_loadManifest {dirs : List RouteDir} {key : UrlText} {page : PageManifest}
    (member : (key, page) ∈ (loadManifest dirs).entries) : key = page.id := by
  obtain ⟨dir, _, same⟩ := List.mem_map.mp (OrderedMap.mem_of_mem_ofList member)
  cases same
  rfl

theorem keys_loadManifest (dirs : List RouteDir) :
    (loadManifest dirs).values.map PageManifest.id = (loadManifest dirs).keys := by
  rw [OrderedMap.values, OrderedMap.keys, List.map_map]
  exact List.map_congr_left fun entry member => (key_of_mem_loadManifest member).symm

theorem nodup_loadManifest (dirs : List RouteDir) :
    ((loadManifest dirs).values.map PageManifest.id).Nodup := by
  rw [keys_loadManifest]
  exact (loadManifest dirs).nodupKeys

theorem loadManifest_perm (ids : ∀ dir ∈ routes.pageDirs, ∀ other ∈ routes.pageDirs,
    dir.page.id = other.page.id → dir = other) :
    (loadManifest routes.dirs).values.Perm (routes.pageDirs.map RouteDir.page) := by
  have perm : ((routes.dirs.mergeSort dirLe).filter (·.hasPage)).Perm routes.pageDirs :=
    (List.mergeSort_perm _ _).filter _
  have unique : ((((routes.dirs.mergeSort dirLe).filter (·.hasPage)).map
      fun dir => (dir.page.id, dir.page)).map Prod.fst).Nodup := by
    rw [List.map_map]
    refine (perm.map _).nodup_iff.mpr ?_
    exact List.Nodup.map_on (fun dir member other among same => ids dir member other among same)
      (routes.nodup.filter _)
  rw [loadManifest, OrderedMap.values, OrderedMap.entries_ofList_of_nodup unique, List.map_map]
  exact perm.map _

def sortedPages (routes : Routes) : List PageManifest :=
  (loadManifest routes.dirs).values.mergeSort pageLe

theorem mem_sortedPages {page : PageManifest} :
    page ∈ routes.sortedPages ↔ page ∈ (loadManifest routes.dirs).values :=
  List.mem_mergeSort

theorem pairwise_sortedPages (routes : Routes) :
    routes.sortedPages.Pairwise fun left right => left.id < right.id := by
  have sorted : routes.sortedPages.Pairwise fun left right => pageLe left right = true := by
    refine List.pairwise_mergeSort (fun left middle right first second => ?_)
      (fun left right => ?_) _
    · rw [pageLe, decide_eq_true_eq] at first second ⊢
      exact le_trans first second
    · rw [pageLe, pageLe, Bool.or_eq_true, decide_eq_true_eq, decide_eq_true_eq]
      exact le_total left.id right.id
  have unique : (routes.sortedPages.map PageManifest.id).Nodup :=
    ((List.mergeSort_perm _ _).map _).nodup_iff.mpr (nodup_loadManifest _)
  have different : routes.sortedPages.Pairwise fun left right => left.id ≠ right.id :=
    List.pairwise_map.mp unique
  refine (sorted.and different).imp fun {left right} both => ?_
  rw [pageLe, decide_eq_true_eq] at both
  exact lt_of_le_of_ne both.1 both.2

def propertyName (isPrint : Char → Bool) (dir : RouteDir) : UrlText :=
  quotedText isPrint dir.page.id

section

variable {isPrint : Char → Bool} {pages : List RouterPage}

theorem routerPages_eq_some (routes : Routes) :
    routerPages isPrint (loadManifest routes.dirs) = some pages ↔
      (∀ page ∈ (loadManifest routes.dirs).values,
        (parsePagePattern page.url).1.isLiteral = true) ∧
      pages = ((OrderedMap.ofList ((routes.sortedPages.map (PageManifest.routerPage isPrint)).map
        fun page => (page.id, page))).filter (·.1 ≠ protoName)).values := by
  have literal : ((routes.sortedPages.map (PageManifest.routerPage isPrint)).all
      (·.pattern.isLiteral)) = true ↔ ∀ page ∈ (loadManifest routes.dirs).values,
        (parsePagePattern page.url).1.isLiteral = true := by
    rw [List.all_map, List.all_eq_true]
    exact forall_congr' fun page => imp_congr mem_sortedPages Iff.rfl
  rw [← literal, routerPages]
  change (if _ then some _ else none) = some pages ↔ _
  split
  · next all =>
      exact ⟨fun same => ⟨all, (Option.some.inj same).symm⟩, fun both => congrArg some both.2.symm⟩
  · next some => exact iff_of_false nofun fun both => some both.1

theorem mem_routerPages (found : routerPages isPrint (loadManifest routes.dirs) = some pages)
    {page : RouterPage} (member : page ∈ pages) :
    page.id ≠ protoName ∧ ∀ other ∈ pages, other.id = page.id → other = page := by
  obtain ⟨_, same⟩ := routes.routerPages_eq_some.mp found
  have entry {page : RouterPage} (member : page ∈ pages) :
      page.id ≠ protoName ∧ (OrderedMap.ofList
        ((routes.sortedPages.map (PageManifest.routerPage isPrint)).map
          fun page => (page.id, page))).get? page.id = some page := by
    rw [same] at member
    obtain ⟨⟨key, value⟩, among, equal⟩ := List.mem_map.mp member
    obtain ⟨inside, kept⟩ := List.mem_filter.mp among
    obtain ⟨own, _, named⟩ := List.mem_map.mp (OrderedMap.mem_of_mem_ofList inside)
    cases equal
    cases named
    exact ⟨of_decide_eq_true kept, OrderedMap.mem_entries_iff.mp inside⟩
  obtain ⟨kept, own⟩ := entry member
  refine ⟨kept, fun other among equal => ?_⟩
  have others := (entry among).2
  rw [equal, own] at others
  exact (Option.some.inj others).symm

theorem routerPages_eq_sortedPages
    (literal : ∀ page ∈ (loadManifest routes.dirs).values,
      (parsePagePattern page.url).1.isLiteral = true)
    (names : ∀ page ∈ routes.sortedPages, ∀ other ∈ routes.sortedPages,
      quotedText isPrint page.id = quotedText isPrint other.id → page = other)
    (proto : ∀ page ∈ routes.sortedPages, quotedText isPrint page.id ≠ protoName) :
    routerPages isPrint (loadManifest routes.dirs) =
      some (routes.sortedPages.map (PageManifest.routerPage isPrint)) := by
  refine routes.routerPages_eq_some.mpr ⟨literal, ?_⟩
  have unique : (((routes.sortedPages.map (PageManifest.routerPage isPrint)).map
      fun page => (page.id, page)).map Prod.fst).Nodup := by
    rw [List.map_map, List.map_map]
    refine List.Nodup.map_on (fun page member other among same => names page member other among same) ?_
    exact (List.mergeSort_perm _ _).nodup_iff.mpr (nodup_loadManifest _).of_map
  have kept : ∀ entry ∈ (routes.sortedPages.map (PageManifest.routerPage isPrint)).map
      fun page => (page.id, page), decide (entry.1 ≠ protoName) = true := by
    intro entry member
    obtain ⟨page, among, rfl⟩ := List.mem_map.mp member
    obtain ⟨own, inside, rfl⟩ := List.mem_map.mp among
    exact decide_eq_true (proto own inside)
  change _ = ((OrderedMap.ofList _).entries.filter _).map Prod.snd
  rw [OrderedMap.entries_ofList_of_nodup unique, List.filter_eq_self.mpr kept, List.map_map]
  exact (List.map_id _).symm

theorem findMatch_eq_ok {current : UrlText} {page : RouterPage}
    {matched : OrderedMap UrlText UrlText} :
    findMatch pages current = .ok (some (page, matched)) ↔
      ∃ before behind captured, pages = before ++ page :: behind ∧
        page.pattern.captures (current.takeWhile (· ≠ '?')) = some captured ∧
        (∀ other ∈ before, other.pattern.captures (current.takeWhile (· ≠ '?')) = none) ∧
        exec captured page.params = .ok matched := by
  unfold findMatch
  generalize current.takeWhile (· ≠ '?') = path
  simp only
  cases found : pages.findSome? fun page => (page.pattern.captures path).map (page, ·) with
  | none =>
      refine iff_of_false nofun ?_
      rintro ⟨before, behind, captured, rfl, own, _⟩
      have none := List.findSome?_eq_none_iff.mp found page
        (List.mem_append_right _ List.mem_cons_self)
      rw [own] at none
      cases none
  | some result =>
      obtain ⟨first, captured⟩ := result
      obtain ⟨before, other, behind, same, own, earlier⟩ := List.findSome?_eq_some_iff.mp found
      obtain ⟨_, own, equal⟩ := Option.map_eq_some_iff.mp own
      cases equal
      constructor
      · intro went
        change (exec captured first.params).map _ = _ at went
        cases ran : exec captured first.params with
        | error message =>
            rw [ran] at went
            cases went
        | ok result =>
            rw [ran] at went
            cases went
            exact ⟨before, behind, captured, same, own,
              fun other member => Option.map_eq_none_iff.mp (earlier other member), ran⟩
      · rintro ⟨front, back, values, whole, owns, none, ran⟩
        have again : pages.findSome? (fun page => (page.pattern.captures path).map (page, ·)) =
            some (page, values) := by
          refine List.findSome?_eq_some_iff.mpr ⟨front, page, back, whole, by rw [owns]; rfl, ?_⟩
          intro other member
          rw [none other member]
          rfl
        rw [found] at again
        cases again
        change (exec _ _).map _ = _
        rw [ran]
        rfl

end

/-- One page for each directory with a page, and every url of a page finds it. -/
structure Reachable (isPrint : Char → Bool) (routes : Routes) : Prop where
  contained : (loadManifest routes.dirs).values.Perm (routes.pageDirs.map RouteDir.page)
  found : ∃ pages, routerPages isPrint (loadManifest routes.dirs) = some pages ∧
    ∀ dir ∈ routes.pageDirs, ∀ values, routes.Fresh values → ∃ matched,
      findMatch pages (dir.urlWith values) = .ok (some (dir.page.routerPage isPrint, matched))

/-- What keeps the pages of a project apart. -/
structure Separated (isPrint : Char → Bool) (routes : Routes) : Prop where
  plain : ∀ dir ∈ routes.pageDirs, ∀ text, .fixed text ∈ dir.segments →
    '?' ∉ text ∧ ∀ char ∈ text, isLineTerminator char = false
  names : ∀ dir ∈ routes.pageDirs, ∀ other ∈ routes.pageDirs,
    propertyName isPrint dir = propertyName isPrint other → dir = other
  proto : ∀ dir ∈ routes.pageDirs, propertyName isPrint dir ≠ protoName
  uncovered : ∀ dir ∈ routes.pageDirs, ∀ other ∈ routes.pageDirs, other.page.id < dir.page.id →
    other.pattern.covers (dir.segments.map RouteSegment.token) = false

variable {isPrint : Char → Bool}

theorem mem_dirs {dir : RouteDir} (member : dir ∈ routes.pageDirs) : dir ∈ routes.dirs :=
  (List.mem_filter.mp member).1

theorem mem_sortedPages_iff
    (contained : (loadManifest routes.dirs).values.Perm (routes.pageDirs.map RouteDir.page))
    {page : PageManifest} :
    page ∈ routes.sortedPages ↔ ∃ dir ∈ routes.pageDirs, dir.page = page := by
  rw [mem_sortedPages, contained.mem_iff, List.mem_map]

theorem path_urlWith {dir : RouteDir} (plain : '?' ∉ dir.urlWith values) :
    (dir.urlWith values).takeWhile (· ≠ '?') = dir.urlWith values := by
  rw [List.takeWhile_eq_self_iff]
  intro char member
  refine decide_eq_true fun same => plain ?_
  rw [← same]
  exact member

theorem Fresh.question_not_mem (fresh : routes.Fresh values) {dir : RouteDir}
    (plain : ∀ text, .fixed text ∈ dir.segments → '?' ∉ text) : '?' ∉ dir.urlWith values := by
  rw [← List.count_eq_zero, List.count,
    fresh.countP_urlWith (by decide) (not_letter_of_beq (by decide)), List.sum_eq_zero_iff]
  intro count among
  obtain ⟨segment, inside, rfl⟩ := List.mem_map.mp among
  cases segment with
  | fixed text => exact List.count_eq_zero.mpr (plain text inside)
  | param name => rfl
  | optional name => rfl
  | rest name => rfl

theorem Separated.isLiteral (separated : routes.Separated isPrint) {dir : RouteDir}
    (member : dir ∈ routes.pageDirs) : dir.pattern.isLiteral = true :=
  (isLiteral_iff dir).mpr fun text inside => (separated.plain dir member text inside).2

theorem covers_self (segments : List RouteSegment) :
    covers segments (segments.map RouteSegment.token) = true := by
  induction segments with
  | nil => rfl
  | cons segment rest ih =>
      cases segment with
      | fixed text => simp [covers, RouteSegment.token, ih]
      | param name => simp [covers, RouteSegment.token, ih]
      | optional name => simp [covers, RouteSegment.token, ih]
      | rest name =>
          rw [covers, List.any_eq_true]
          exact ⟨_, (List.mem_tails _ _).mpr (List.suffix_cons _ _), ih⟩

theorem pattern_covers_self (dir : RouteDir) :
    dir.pattern.covers (dir.segments.map RouteSegment.token) = true := by
  rw [pattern_eq]
  split
  · next root =>
      rw [segments_eq_nil_of_root root]
      rfl
  · exact covers_self dir.segments

theorem Separated.reachable (separated : routes.Separated isPrint) :
    routes.Reachable isPrint := by
  have ids : ∀ dir ∈ routes.pageDirs, ∀ other ∈ routes.pageDirs,
      dir.page.id = other.page.id → dir = other := fun dir member other among same =>
    separated.names dir member other among (congrArg (quotedText isPrint) same)
  have contained := loadManifest_perm ids
  refine ⟨contained, routes.sortedPages.map (PageManifest.routerPage isPrint), ?_, ?_⟩
  · refine routerPages_eq_sortedPages ?_ ?_ ?_
    · intro page member
      obtain ⟨dir, among, rfl⟩ := List.mem_map.mp (contained.mem_iff.mp member)
      exact separated.isLiteral among
    · intro page member other inside same
      obtain ⟨dir, among, rfl⟩ := (mem_sortedPages_iff contained).mp member
      obtain ⟨second, within, rfl⟩ := (mem_sortedPages_iff contained).mp inside
      exact congrArg RouteDir.page (separated.names dir among second within same)
    · intro page member
      obtain ⟨dir, among, rfl⟩ := (mem_sortedPages_iff contained).mp member
      exact separated.proto dir among
  · intro dir member values fresh
    have literal := separated.isLiteral member
    have path := path_urlWith (fresh.question_not_mem fun text inside =>
      (separated.plain dir member text inside).1)
    obtain ⟨before, behind, same⟩ :=
      List.append_of_mem ((mem_sortedPages_iff contained).mpr ⟨dir, member, rfl⟩)
    have sorted := routes.pairwise_sortedPages
    rw [same, List.pairwise_append] at sorted
    obtain ⟨captured, own⟩ := Option.isSome_iff_exists.mp
      ((fresh.captures_iff (mem_dirs member) literal).mpr (pattern_covers_self dir))
    have counted := @countP_captures (· == '%') (by decide) _ _ _ own
    rw [fresh.countP_urlWith (by decide) (not_letter_of_beq (by decide))] at counted
    obtain ⟨matched, ran⟩ := exec_ok (Nat.left_eq_add.mp counted)
      (dir.page.routerPage isPrint).params
    refine ⟨matched, findMatch_eq_ok.mpr ⟨before.map (PageManifest.routerPage isPrint),
      behind.map (PageManifest.routerPage isPrint), captured, ?_, ?_, ?_, ran⟩⟩
    · rw [same, List.map_append, List.map_cons]
    · rw [path]
      exact own
    · intro page among
      obtain ⟨earlier, inside, rfl⟩ := List.mem_map.mp among
      have smaller := sorted.2.2 earlier inside dir.page List.mem_cons_self
      have known : earlier ∈ routes.sortedPages := by
        rw [same]
        exact List.mem_append_left _ inside
      obtain ⟨other, within, rfl⟩ := (mem_sortedPages_iff contained).mp known
      have uncovered := separated.uncovered dir member other within smaller
      rw [path, ← Option.not_isSome_iff_eq_none]
      intro reads
      rw [(fresh.captures_iff (mem_dirs within) literal).mp reads] at uncovered
      cases uncovered

theorem mem_of_findMatch {pages : List RouterPage} {current : UrlText} {page : RouterPage}
    {matched : OrderedMap UrlText UrlText}
    (went : findMatch pages current = .ok (some (page, matched))) : page ∈ pages := by
  obtain ⟨before, behind, _, same, _⟩ := findMatch_eq_ok.mp went
  rw [same]
  exact List.mem_append_right _ List.mem_cons_self

theorem plain_of_captures {dir : RouteDir}
    {captured : List (Option UrlText)}
    (own : dir.pattern.captures ((dir.urlWith values).takeWhile (· ≠ '?')) = some captured)
    {text : UrlText} (member : .fixed text ∈ dir.segments) : '?' ∉ text := by
  have counted := @countP_captures (· == '?') (by decide) _ _ _ own
  have none : ((dir.urlWith values).takeWhile (· ≠ '?')).countP (· == '?') = 0 := by
    refine List.count_eq_zero.mpr fun left => ?_
    have other : decide ('?' ≠ '?') = true :=
      List.mem_takeWhile_imp (p := fun char => decide (char ≠ '?')) left
    exact absurd other (by decide)
  have zero : (dir.segments.map (RouteSegment.fixedCount (· == '?'))).sum = 0 := by omega
  exact List.count_eq_zero.mp (List.sum_eq_zero_iff.mp zero _ (List.mem_map_of_mem member))

theorem uncovered_of_found {pages : List RouterPage}
    (contained : (loadManifest routes.dirs).values.Perm (routes.pageDirs.map RouteDir.page))
    (ordered : pages = routes.sortedPages.map (PageManifest.routerPage isPrint))
    (fresh : routes.Fresh values) {dir other : RouteDir} (literal : dir.pattern.isLiteral = true)
    (plain : '?' ∉ dir.urlWith values) (among : other ∈ routes.pageDirs)
    (smaller : other.page.id < dir.page.id) {matched : OrderedMap UrlText UrlText}
    (went : findMatch pages (dir.urlWith values) =
      .ok (some (dir.page.routerPage isPrint, matched))) :
    other.pattern.covers (dir.segments.map RouteSegment.token) = false := by
  refine Bool.eq_false_iff.mpr fun covered => ?_
  have reads := (fresh.captures_iff (mem_dirs among) literal).mpr covered
  obtain ⟨before, behind, _, same, _, earlier, _⟩ := findMatch_eq_ok.mp went
  rw [path_urlWith plain] at earlier
  rw [ordered] at same
  obtain ⟨front, rest, whole, isBefore, isRest⟩ := List.map_eq_append_iff.mp same
  obtain ⟨page, back, tail, isDir, _⟩ := List.map_eq_cons_iff.mp isRest
  have known {page : PageManifest} (member : page ∈ routes.sortedPages) : page = page.view.page := by
    obtain ⟨_, _, rfl⟩ := (mem_sortedPages_iff contained).mp member
    rfl
  have isPage : page = dir.page := by
    have view : page.view = dir := congrArg RouterPage.view isDir
    have member : page ∈ routes.sortedPages := by
      rw [whole, tail]
      exact List.mem_append_right _ List.mem_cons_self
    exact (known member).trans (congrArg RouteDir.page view)
  have sorted := routes.pairwise_sortedPages
  rw [whole, tail, isPage, List.pairwise_append, List.pairwise_cons] at sorted
  have inside := (mem_sortedPages_iff contained).mpr ⟨other, among, rfl⟩
  rw [whole, tail, isPage, List.mem_append, List.mem_cons] at inside
  rcases inside with first | same | last
  · have none : other.pattern.captures (dir.urlWith values) = none :=
      earlier _ (isBefore ▸ List.mem_map_of_mem first : other.page.routerPage isPrint ∈ before)
    rw [none] at reads
    cases reads
  · rw [same] at smaller
    exact List.lt_irrefl _ smaller
  · exact List.lt_asymm smaller (sorted.2.1.1 _ last)

theorem Reachable.separated (reachable : routes.Reachable isPrint) :
    routes.Separated isPrint := by
  obtain ⟨contained, pages, known, found⟩ := reachable
  obtain ⟨values, fresh⟩ := routes.exists_fresh
  obtain ⟨literal, _⟩ := routes.routerPages_eq_some.mp known
  have isLiteral {dir : RouteDir} (member : dir ∈ routes.pageDirs) :
      dir.pattern.isLiteral = true :=
    literal _ (contained.mem_iff.mpr (List.mem_map_of_mem member))
  have inside {dir : RouteDir} (member : dir ∈ routes.pageDirs) :
      dir.page.routerPage isPrint ∈ pages := by
    obtain ⟨matched, went⟩ := found dir member values fresh
    exact mem_of_findMatch went
  have plain {dir : RouteDir} (member : dir ∈ routes.pageDirs) {text : UrlText}
      (among : .fixed text ∈ dir.segments) : '?' ∉ text := by
    obtain ⟨matched, went⟩ := found dir member values fresh
    obtain ⟨_, _, captured, _, own, _⟩ := findMatch_eq_ok.mp went
    exact plain_of_captures own among
  have names : ∀ dir ∈ routes.pageDirs, ∀ other ∈ routes.pageDirs,
      propertyName isPrint dir = propertyName isPrint other → dir = other := by
    intro dir member other among same
    have equal := (mem_routerPages known (inside among)).2 _ (inside member) same
    exact congrArg RouterPage.view equal
  have proto : ∀ dir ∈ routes.pageDirs, propertyName isPrint dir ≠ protoName :=
    fun dir member => (mem_routerPages known (inside member)).1
  have ordered := routerPages_eq_sortedPages literal
    (fun page member other among same => by
      obtain ⟨dir, isDir, rfl⟩ := (mem_sortedPages_iff contained).mp member
      obtain ⟨second, isOther, rfl⟩ := (mem_sortedPages_iff contained).mp among
      exact congrArg RouteDir.page (names dir isDir second isOther same))
    (fun page member => by
      obtain ⟨dir, isDir, rfl⟩ := (mem_sortedPages_iff contained).mp member
      exact proto dir isDir)
  rw [known] at ordered
  refine ⟨fun dir member text among => ⟨plain member among,
    (isLiteral_iff dir).mp (isLiteral member) text among⟩, names, proto, ?_⟩
  intro dir member other among smaller
  obtain ⟨matched, went⟩ := found dir member values fresh
  exact uncovered_of_found contained (Option.some.inj ordered) fresh (isLiteral member)
    (fresh.question_not_mem fun text inside => plain member inside) among smaller went

/-- Every page is reachable exactly where ids and patterns keep the pages apart. -/
theorem reachable_iff (isPrint : Char → Bool) (routes : Routes) :
    routes.Reachable isPrint ↔ routes.Separated isPrint :=
  ⟨Reachable.separated, Separated.reachable⟩

def DifferentPatterns (routes : Routes) : Prop :=
  (routes.pageDirs.map fun dir => routeSegments dir.page.url).Nodup

def aboutDir : RouteDir where
  path := [⟨"about".toList, by decide, by decide⟩]
  hasPage := true

def idDir : RouteDir where
  path := [⟨"[id]".toList, by decide, by decide⟩]
  hasPage := true

def siblings : Routes where
  dirs := [aboutDir, idDir]
  nodup := by decide

/-- Brackets come before letters in ids, so the parameter takes the url of its static sibling. -/
theorem about_taken : siblings.DifferentPatterns ∧ ¬ siblings.Reachable fun _ => true := by
  refine ⟨by unfold DifferentPatterns; decide +kernel, fun reachable => ?_⟩
  have before : idDir.page.id < aboutDir.page.id := by decide +kernel
  have covered : idDir.pattern.covers (aboutDir.segments.map RouteSegment.token) = true := by
    decide +kernel
  have uncovered := reachable.separated.uncovered aboutDir (by decide) idDir (by decide) before
  rw [covered] at uncovered
  cases uncovered

end Routes

end Houdini.React
