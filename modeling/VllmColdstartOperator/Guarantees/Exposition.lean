import VllmColdstartOperator.Reporter.Sources

/-!
# Samples in the exposition format

A body of the exposition format is one sample a line, its label values quoted and
escaped, between comments and blank lines.  The scanner cuts the labels at the
first closing brace, wherever it stands, so it reads the samples of a family as
they were written as far as no label value holds one.
-/

namespace VllmColdstartOperator

open Foundation

/-! ## The format -/

def isNameChar (char : Char) : Bool :=
  (0x30 ≤ char.toNat ∧ char.toNat ≤ 0x3a) ∨ (0x41 ≤ char.toNat ∧ char.toNat ≤ 0x5a) ∨
    char.toNat = 0x5f ∨ (0x61 ≤ char.toNat ∧ char.toNat ≤ 0x7a)

def IsName (name : List Char) : Prop := name ≠ [] ∧ ∀ char ∈ name, isNameChar char = true

instance (name : List Char) : Decidable (IsName name) :=
  decidable_of_iff (name ≠ [] ∧ name.all isNameChar = true) (by simp [IsName])

theorem isNameChar_plain {char : Char} (hname : isNameChar char = true) :
    isWhitespace char = false ∧ char ≠ '#' ∧ char ≠ '{' ∧ char ≠ '}' := by
  refine ⟨?_, ?_, ?_, ?_⟩
  · simp only [isNameChar, isWhitespace, decide_eq_true_eq, decide_eq_false_iff_not] at hname ⊢
    omega
  all_goals
    rintro rfl
    exact absurd hname (by decide)

def escapeChar (char : Char) : List Char :=
  if char = '\\' then ['\\', '\\']
  else if char = '"' then ['\\', '"']
  else if char = '\n' then ['\\', 'n']
  else [char]

def escape (value : List Char) : List Char := value.flatMap escapeChar

def labelText (label : List Char × List Char) : List Char :=
  label.1 ++ '=' :: '"' :: escape label.2 ++ ['"']

/-- A sample as it is meant: its name, labels and timestamp, and the number its
value is written for. -/
structure MetricSample (F : Type) [Double F] where
  name : List Char
  labels : Option (List (List Char × List Char))
  value : List Char
  timestamp : Option (List Char)
  number : F
  named : IsName name
  labelled : ∀ label ∈ labels.getD [], IsName label.1
  written : IsWord value ∧ Double.parse (String.ofList value) = some number
  stamped : ∀ stamp ∈ timestamp, IsWord stamp

namespace MetricSample

variable {F : Type} [Double F] (sample : MetricSample F)

def inside : List Char := [','].intercalate ((sample.labels.getD []).map labelText)

def tail : List Char :=
  ' ' :: sample.value ++ (sample.timestamp.map fun stamp => ' ' :: stamp).getD []

def labelBlock : List Char :=
  (sample.labels.map fun _ => '{' :: sample.inside ++ ['}']).getD []

def line : List Char := sample.name ++ (sample.labelBlock ++ sample.tail)

/-- What follows the first closing brace of the line. -/
def behindBrace : List Char :=
  ((sample.inside ++ '}' :: sample.tail).dropWhile fun char => char ≠ '}').tail

/-- A label value holds a closing brace. -/
def ClosesEarly : Prop := ∃ label ∈ sample.labels.getD [], '}' ∈ label.2

/-- The word behind that brace is the number all the same. -/
def ReadsAnyway : Prop :=
  ((firstWord sample.behindBrace).bind fun word => Double.parse (String.ofList word)) =
    some sample.number

end MetricSample

def IsSkipped (text : List Char) : Prop :=
  '\n' ∉ text ∧ ((∀ char ∈ text, isWhitespace char = true) ∨
    ∃ blanks comment, text = blanks ++ '#' :: comment ∧
      ∀ char ∈ blanks, isWhitespace char = true)

inductive ExpositionLine (F : Type) [Double F] where
  | sample (metric : MetricSample F)
  | skipped (text : List Char) (skip : IsSkipped text)

namespace ExpositionLine

variable {F : Type} [Double F]

def text : ExpositionLine F → List Char
  | .sample metric => metric.line
  | .skipped text _ => text

def number (family : List Char) : ExpositionLine F → Option F
  | .sample metric => if metric.name = family then some metric.number else none
  | .skipped _ _ => none

end ExpositionLine

def expositionBody {F : Type} [Double F] (items : List (ExpositionLine F)) : String :=
  String.ofList (items.flatMap fun item => item.text ++ ['\n'])

/-! ## One line -/

variable {F : Type} [Double F]

theorem mem_escape_iff {char : Char} (hplain : char ≠ '\\' ∧ char ≠ '"' ∧ char ≠ '\n' ∧
    char ≠ 'n') (value : List Char) : char ∈ escape value ↔ char ∈ value := by
  rw [escape, List.mem_flatMap]
  constructor
  · rintro ⟨written, hwritten, hmem⟩
    unfold escapeChar at hmem
    split at hmem
    · simp [hplain.1] at hmem
    · split at hmem
      · simp [hplain.1, hplain.2.1] at hmem
      · split at hmem
        · simp [hplain.1, hplain.2.2.2] at hmem
        · rw [List.mem_singleton.mp hmem]
          exact hwritten
  · intro hmem
    refine ⟨char, hmem, ?_⟩
    simp [escapeChar, hplain]

theorem newline_not_mem_escape (value : List Char) : '\n' ∉ escape value := by
  rw [escape, List.mem_flatMap]
  rintro ⟨written, -, hmem⟩
  unfold escapeChar at hmem
  split at hmem
  · simp at hmem
  · split at hmem
    · simp at hmem
    · split at hmem
      · simp at hmem
      next hne => exact hne (List.mem_singleton.mp hmem).symm

theorem isName_not_mem {name : List Char} (hname : IsName name) {char : Char}
    (hchar : isNameChar char = false) : char ∉ name := by
  intro hmem
  rw [hname.2 char hmem] at hchar
  cases hchar

theorem isWord_not_mem {word : List Char} (hword : IsWord word) {char : Char}
    (hchar : isWhitespace char = true) : char ∉ word := by
  intro hmem
  rw [hword.2 char hmem] at hchar
  cases hchar

theorem lineValue_skipped {family text : List Char} (hskip : IsSkipped text) :
    lineValue (F := F) family text = none := by
  rw [lineValue]
  rcases hskip.2 with hblank | ⟨blanks, comment, rfl, hblanks⟩
  · rw [trim_eq_nil hblank]
    rfl
  · rw [trim_head hblanks (by decide)]
    simp

namespace MetricSample

variable (sample : MetricSample F)

theorem mem_inside_iff {char : Char} (hchar : char ≠ ',') :
    char ∈ sample.inside ↔ ∃ label ∈ sample.labels.getD [], char ∈ labelText label := by
  have hmem : ∀ texts : List (List Char),
      char ∈ [','].intercalate texts ↔ ∃ text ∈ texts, char ∈ text := by
    intro texts
    induction texts with
    | nil => simp
    | cons text texts ih =>
        cases texts with
        | nil => simp
        | cons next texts =>
            rw [List.intercalate_cons_cons, List.mem_append, List.mem_append, ih]
            simp [hchar]
  rw [inside, hmem]
  simp

theorem brace_mem_inside_iff : '}' ∈ sample.inside ↔ sample.ClosesEarly := by
  rw [mem_inside_iff sample (by decide), ClosesEarly]
  refine exists_congr fun label => and_congr_right fun hlabel => ?_
  have hname : '}' ∉ label.1 := isName_not_mem (sample.labelled label hlabel) (by decide)
  have hescape : '}' ∈ escape label.2 ↔ '}' ∈ label.2 := mem_escape_iff (by decide) label.2
  simp [labelText, hname, hescape]

theorem firstWord_tail : firstWord sample.tail = some sample.value := by
  have hrest : ∀ char, ((sample.timestamp.map fun stamp => ' ' :: stamp).getD []).head? =
      some char → isWhitespace char = true := by
    intro char hhead
    cases hstamp : sample.timestamp with
    | none => simp [hstamp] at hhead
    | some stamp =>
        simp only [hstamp, Option.map_some, Option.getD_some, List.head?_cons,
          Option.some.injEq] at hhead
        rw [← hhead]
        decide
  have hblank : ∀ char ∈ [' '], isWhitespace char = true := by
    intro char hmem
    rw [List.mem_singleton.mp hmem]
    decide
  exact firstWord_append hblank sample.written.1 hrest

theorem readsAnyway_of_not_closesEarly (hnone : ¬ sample.ClosesEarly) :
    sample.ReadsAnyway := by
  have hinside : ∀ char ∈ sample.inside, decide (char ≠ '}') = true := by
    intro char hmem
    rw [decide_eq_true_eq]
    rintro rfl
    exact hnone (sample.brace_mem_inside_iff.mp hmem)
  have hbehind : sample.behindBrace = sample.tail := by
    rw [behindBrace, List.dropWhile_append_of_pos hinside]
    simp
  rw [ReadsAnyway, hbehind, firstWord_tail]
  exact sample.written.2

/-! ## Scanning a sample -/

theorem behindName_head {char : Char}
    (hhead : (sample.labelBlock ++ sample.tail).head? = some char) :
    isNameChar char = false := by
  rw [labelBlock] at hhead
  cases hlabels : sample.labels with
  | none =>
      rw [hlabels] at hhead
      cases hhead
      decide
  | some labels =>
      rw [hlabels] at hhead
      cases hhead
      decide

theorem newline_not_mem_inside : '\n' ∉ sample.inside := by
  rw [mem_inside_iff sample (by decide)]
  rintro ⟨label, hlabel, hmem⟩
  have hname : '\n' ∉ label.1 := isName_not_mem (sample.labelled label hlabel) (by decide)
  simp [labelText, hname, newline_not_mem_escape] at hmem

theorem newline_not_mem_tail : '\n' ∉ sample.tail := by
  have hvalue : '\n' ∉ sample.value := isWord_not_mem sample.written.1 (by decide)
  cases hstamp : sample.timestamp with
  | none => simp [tail, hstamp, hvalue]
  | some stamp =>
      have hword : '\n' ∉ stamp := isWord_not_mem (sample.stamped stamp hstamp) (by decide)
      simp [tail, hstamp, hvalue, hword]

theorem newline_not_mem_line : '\n' ∉ sample.line := by
  have hname : '\n' ∉ sample.name := isName_not_mem sample.named (by decide)
  have hinside := sample.newline_not_mem_inside
  have htail := sample.newline_not_mem_tail
  cases hlabels : sample.labels with
  | none => simp [line, labelBlock, hlabels, hname, htail]
  | some labels => simp [line, labelBlock, hlabels, hname, htail, hinside]

theorem line_eq_append_word : ∃ before word, IsWord word ∧ sample.line = before ++ word := by
  cases hstamp : sample.timestamp with
  | none =>
      refine ⟨sample.name ++ sample.labelBlock ++ [' '], sample.value, sample.written.1, ?_⟩
      simp [line, tail, hstamp]
  | some stamp =>
      refine ⟨sample.name ++ sample.labelBlock ++ (' ' :: sample.value ++ [' ']), stamp,
        sample.stamped stamp hstamp, ?_⟩
      simp [line, tail, hstamp]

theorem trim_line : trim sample.line = sample.line := by
  obtain ⟨before, word, hword, hline⟩ := sample.line_eq_append_word
  obtain ⟨first, name, hname⟩ := List.exists_cons_of_ne_nil sample.named.1
  apply trim_of_ends
  · intro char hchar
    rw [line, hname] at hchar
    cases hchar
    exact (isNameChar_plain (sample.named.2 first (hname ▸ List.mem_cons_self))).1
  · intro char hchar
    rw [hline, List.getLast?_append_of_ne_nil _ hword.1] at hchar
    exact hword.2 char (List.mem_of_getLast? hchar)

theorem lineValue_other {family : List Char} (hfamily : IsName family)
    (hne : sample.name ≠ family) : lineValue (F := F) family sample.line = none := by
  rw [lineValue, trim_line]
  dsimp only
  split
  · rfl
  cases hstrip : stripPrefix family sample.line with
  | none => rfl
  | some rest =>
      have hline := stripPrefix_eq_some_iff.mp hstrip
      obtain ⟨first, more, hrest, hchar⟩ :
          ∃ first more, rest = first :: more ∧ isNameChar first = true := by
        rcases List.append_eq_append_iff.mp hline with ⟨more, hmore, hbehind⟩ |
          ⟨more, hmore, hbehind⟩
        · cases more with
          | nil => exact absurd (by simpa using hmore.symm) hne
          | cons first more =>
              have hname := hfamily.2 first (hmore ▸ by simp)
              rw [sample.behindName_head (by rw [hbehind]; rfl)] at hname
              cases hname
        · cases more with
          | nil => exact absurd (by simpa using hmore) hne
          | cons first more =>
              exact ⟨first, _, hbehind, sample.named.2 first (hmore ▸ by simp)⟩
      obtain ⟨hspace, -, hbrace, -⟩ := isNameChar_plain hchar
      simp [hrest, hbrace, hspace]

/-- Of its own family a sample reads as the first word behind the first brace. -/
theorem lineValue_own : lineValue (F := F) sample.name sample.line =
    (firstWord sample.behindBrace).bind fun word => Double.parse (String.ofList word) := by
  obtain ⟨first, name, hname⟩ := List.exists_cons_of_ne_nil sample.named.1
  have hfirst := isNameChar_plain (sample.named.2 first (hname ▸ List.mem_cons_self))
  have hhead : sample.line.head? = some first := by
    rw [line, hname]
    rfl
  have hkept : ¬ (sample.line = [] ∨ sample.line.head? = some '#') := by
    rintro (hempty | hcomment)
    · rw [hempty] at hhead
      cases hhead
    · rw [hhead, Option.some.injEq] at hcomment
      exact hfirst.2.1 hcomment
  have hstrip : stripPrefix sample.name sample.line = some (sample.labelBlock ++ sample.tail) :=
    stripPrefix_eq_some_iff.mpr rfl
  rw [lineValue, trim_line]
  dsimp only
  rw [if_neg hkept, hstrip]
  cases hlabels : sample.labels with
  | none =>
      have hbehind : sample.behindBrace = sample.tail := by
        rw [behindBrace, inside, hlabels]
        rfl
      rw [hbehind, labelBlock, hlabels]
      rfl
  | some labels =>
      have hblock : sample.labelBlock ++ sample.tail =
          '{' :: (sample.inside ++ '}' :: sample.tail) := by
        simp [labelBlock, hlabels]
      rw [hblock, behindBrace, Option.bind_eq_bind, Option.bind_some]
      dsimp only
      rw [if_pos rfl, List.dropWhile_cons_of_pos (by decide)]
      cases hcut : (sample.inside ++ '}' :: sample.tail).dropWhile fun char => char ≠ '}' with
      | nil =>
          rw [List.dropWhile_eq_nil_iff] at hcut
          exact absurd (hcut '}' (by simp)) (by decide)
      | cons brace behind => rfl

end MetricSample

/-! ## The whole body -/

namespace ExpositionLine

theorem newline_not_mem_text (item : ExpositionLine F) : '\n' ∉ item.text := by
  cases item with
  | sample metric => exact metric.newline_not_mem_line
  | skipped text skip => exact skip.1

theorem lineValue_text {family : List Char} (hfamily : IsName family)
    (item : ExpositionLine F) :
    lineValue (F := F) family item.text =
      match item with
      | .sample metric =>
          if metric.name = family then
            (firstWord metric.behindBrace).bind fun word => Double.parse (String.ofList word)
          else none
      | .skipped _ _ => none := by
  cases item with
  | skipped text skip => exact lineValue_skipped skip
  | sample metric =>
      by_cases hname : metric.name = family
      · dsimp only [text]
        rw [if_pos hname, ← hname]
        exact metric.lineValue_own
      · dsimp only [text]
        rw [if_neg hname]
        exact metric.lineValue_other hfamily hname

end ExpositionLine

theorem filterMap_lines (items : List (ExpositionLine F)) (family : List Char) :
    (lines (expositionBody items).toList).filterMap (lineValue (F := F) family) =
      items.filterMap fun item => lineValue family item.text := by
  have hkept : ∀ raw, lineValue (F := F) family (lineOf raw) = lineValue family raw := by
    intro raw
    rw [lineValue, trim_lineOf]
    rfl
  rw [expositionBody, String.toList_ofList,
    lines_flatMap _ fun item _ => item.newline_not_mem_text, List.filterMap_map]
  exact List.filterMap_congr fun item _ => hkept item.text

theorem filterMap_eq_filterMap_iff {α β : Type} {read meant : α → Option β} {items : List α}
    (hnone : ∀ item ∈ items, meant item = none → read item = none) :
    items.filterMap read = items.filterMap meant ↔ ∀ item ∈ items, read item = meant item := by
  constructor
  · intro hequal
    induction items with
    | nil => exact fun item hmem => by cases hmem
    | cons first items ih =>
        rw [List.forall_mem_cons] at hnone ⊢
        cases hmeant : meant first with
        | none =>
            rw [List.filterMap_cons_none (hnone.1 hmeant), List.filterMap_cons_none hmeant]
              at hequal
            exact ⟨hnone.1 hmeant, ih hnone.2 hequal⟩
        | some value =>
            cases hread : read first with
            | none =>
                have hlength : (items.filterMap read).length ≤
                    (items.filterMap meant).length := by
                  rw [List.length_filterMap_eq_countP, List.length_filterMap_eq_countP]
                  refine List.countP_mono_left fun item hmem hsome => ?_
                  cases hitem : meant item with
                  | none =>
                      rw [hnone.2 item hmem hitem] at hsome
                      cases hsome
                  | some value => rfl
                rw [List.filterMap_cons_none hread, List.filterMap_cons_some hmeant] at hequal
                rw [hequal, List.length_cons] at hlength
                omega
            | some other =>
                rw [List.filterMap_cons_some hread, List.filterMap_cons_some hmeant,
                  List.cons.injEq] at hequal
                exact ⟨congrArg some hequal.1, ih hnone.2 hequal.2⟩
  · exact List.filterMap_congr

/-- What is added up are the values of the samples of exactly that name; without
one there is no sum. -/
structure ReadsSamples (items : List (ExpositionLine F)) (family : String) : Prop where
  values : (lines (expositionBody items).toList).filterMap (lineValue family.toList) =
    items.filterMap (ExpositionLine.number family.toList)
  sum : sumFamily (expositionBody items) family =
    Double.total (items.filterMap (ExpositionLine.number family.toList))

theorem sumFamily_reads_iff (items : List (ExpositionLine F)) (family : String)
    (hfamily : IsName family.toList) :
    ReadsSamples items family ↔ ∀ metric, ExpositionLine.sample metric ∈ items →
      metric.name = family.toList → metric.ClosesEarly → metric.ReadsAnyway := by
  have hnone : ∀ item ∈ items, item.number family.toList = none →
      lineValue (F := F) family.toList item.text = none := by
    intro item _ hnumber
    rw [item.lineValue_text hfamily]
    cases item with
    | skipped text skip => rfl
    | sample metric =>
        dsimp only [ExpositionLine.number] at hnumber
        split at hnumber
        next => cases hnumber
        next hname => exact if_neg hname
  have hvalues := filterMap_eq_filterMap_iff hnone
  rw [← filterMap_lines] at hvalues
  constructor
  · rintro hreads metric hmem hname -
    have hread := hvalues.mp hreads.values _ hmem
    rw [ExpositionLine.lineValue_text hfamily] at hread
    dsimp only [ExpositionLine.number] at hread
    rwa [if_pos hname, if_pos hname] at hread
  · intro hbraces
    have hread : (lines (expositionBody items).toList).filterMap (lineValue family.toList) =
        items.filterMap (ExpositionLine.number family.toList) := by
      refine hvalues.mpr fun item hmem => ?_
      rw [item.lineValue_text hfamily]
      cases item with
      | skipped text skip => rfl
      | sample metric =>
          dsimp only [ExpositionLine.number]
          split
          next hname =>
            by_cases hcloses : metric.ClosesEarly
            · exact hbraces metric hmem hname hcloses
            · exact metric.readsAnyway_of_not_closesEarly hcloses
          next => rfl
    refine ⟨hread, ?_⟩
    rw [sumFamily, hread, Double.foldl_addInto]

namespace Sample

/-- The sample `a{b="}"} 5`. -/
def bracedMetric : MetricSample Whole where
  name := ['a']
  labels := some [(['b'], ['}'])]
  value := ['5']
  timestamp := none
  number := ⟨5⟩
  named := by decide +kernel
  labelled := by decide +kernel
  written := by decide +kernel
  stamped := by decide +kernel

def plainMetric : MetricSample Whole where
  name := ['a']
  labels := some [(['b'], [' ', '"', ','])]
  value := ['5']
  timestamp := some ['9']
  number := ⟨5⟩
  named := by decide +kernel
  labelled := by decide +kernel
  written := by decide +kernel
  stamped := by decide +kernel

/-- A label value without a brace leaves the sample's value to be read. -/
theorem sumFamily_reads_iff_sample :
    ReadsSamples [.sample plainMetric] "a" ∧
      sumFamily (F := Whole) (expositionBody [.sample plainMetric]) "a" = some ⟨5⟩ := by
  have hreads : ReadsSamples [.sample plainMetric] "a" := by
    refine (sumFamily_reads_iff [.sample plainMetric] "a" (by decide +kernel)).mpr ?_
    intro metric hmem _ hcloses
    obtain rfl : metric = plainMetric := by simpa using hmem
    have hbrace : '}' ∈ plainMetric.inside := (plainMetric.brace_mem_inside_iff).mpr hcloses
    exact absurd hbrace (by decide +kernel)
  exact ⟨hreads, hreads.sum.trans (by decide +kernel)⟩

/-- The brace in the label value ends the labels, and the value reads as `"} 5`. -/
theorem braced_sample_lost :
    sumFamily (F := Whole) (expositionBody [.sample bracedMetric]) "a" = none ∧
      Double.total ([ExpositionLine.sample bracedMetric].filterMap
        (ExpositionLine.number "a".toList)) = some ⟨5⟩ := by
  decide +kernel

end Sample

end VllmColdstartOperator
