import HaybarnHttpfs.HuggingFacePages

/-!
`ParseNextUrlFromLinkHeader` on the headers that RFC 8288 allows. The parser cuts the
header at every ',' and each piece at every ';' before it looks at the angle brackets,
and both may occur in a URL.
-/

namespace HaybarnHttpfs.LinkHeader

open HaybarnHttpfs.Foundation.ByteStrings HaybarnHttpfs.HuggingFaceFileSystem
open HaybarnHttpfs.HuggingFacePages

def comma : UInt8 := 44
def semicolon : UInt8 := 59
def quote : UInt8 := 34

/-- The characters of a URI. -/
def isUriChar (c : UInt8) : Bool :=
  (48 ≤ c && c ≤ 57) || (65 ≤ c && c ≤ 90) || (97 ≤ c && c ≤ 122) ||
    (bytes "-._~:/?#[]@!$&'()*+,;=%").contains c

/-- Optional blanks. -/
structure Blanks where
  text : Bytes := []
  blank : ∀ c ∈ text, c = 32 ∨ c = 9 := by decide +kernel

/-- `<url>; rel="type"`; the type is one or more names or URIs. -/
structure Link where
  url : Bytes
  rel : Bytes
  leading : Blanks := {}
  beforeSemicolon : Blanks := {}
  behindSemicolon : Blanks := { text := [32] }
  trailing : Blanks := {}
  url_legal : ∀ c ∈ url, isUriChar c = true := by decide +kernel
  rel_legal : ∀ c ∈ rel, isUriChar c = true ∨ c = 32 := by decide +kernel

def Link.target (link : Link) : Bytes :=
  link.leading.text ++ 60 :: (link.url ++ 62 :: link.beforeSemicolon.text)

def Link.parameter (link : Link) : Bytes :=
  link.behindSemicolon.text ++ (bytes "rel=\"" ++ (link.rel ++ quote :: link.trailing.text))

def Link.text (link : Link) : Bytes := link.target ++ semicolon :: link.parameter

def headerText (links : List Link) : Bytes := [comma].intercalate (links.map Link.text)

def Link.IsNext (link : Link) : Prop := link.rel = bytes "next"

def commaPieces (text : Bytes) : List Bytes := text.splitOnP (· == comma)

/-- Each of its pieces is divided in two. -/
def Link.Divided (link : Link) : Prop :=
  ∀ piece ∈ commaPieces link.text, (splitChar semicolon piece).length = 2

/-- The first link to a next page has the target, which no separator cuts, and the links
before it are cut into pieces of two parts. -/
def Unbroken (links : List Link) (u : Bytes) : Prop :=
  ∃ before link after, links = before ++ link :: after ∧ link.IsNext ∧ link.url = u ∧
    comma ∉ u ∧ semicolon ∉ u ∧ ∀ other ∈ before, ¬ other.IsNext ∧ other.Divided

variable {c d : UInt8} {text piece content u : Bytes} {pieces rest : List Bytes}
  {link : Link} {links : List Link}

theorem splitOnP_of_notMem (hc : c ∉ text) : text.splitOnP (· == c) = [text] :=
  List.splitOnP_eq_singleton fun _ hd => beq_eq_false_iff_ne.mpr fun heq => hc (heq ▸ hd)

theorem splitOnP_append (c : UInt8) (text more : Bytes) :
    (text ++ c :: more).splitOnP (· == c) = text.splitOnP (· == c) ++ more.splitOnP (· == c) :=
  List.splitOnP_append_cons text more (beq_self_eq_true c)

theorem infix_of_mem_splitOnP (hpiece : piece ∈ text.splitOnP (· == c)) : piece <:+: text := by
  -- on the length: the first separator leaves a shorter text
  induction hlength : text.length using Nat.strongRecOn generalizing text with
  | ind n ih =>
      by_cases hc : c ∈ text
      · obtain ⟨first, rest, rfl, hfirst⟩ := exists_split_of_mem hc
        rw [splitOnP_append, splitOnP_of_notMem hfirst, List.singleton_append,
          List.mem_cons] at hpiece
        rcases hpiece with rfl | hrest
        · exact (List.prefix_append piece _).isInfix
        · have hshorter : rest.length < n := by
            rw [← hlength, List.length_append, List.length_cons]
            omega
          refine (ih _ hshorter hrest rfl).trans (List.IsSuffix.isInfix ?_)
          exact ⟨first ++ [c], by simp⟩
      · rw [splitOnP_of_notMem hc, List.mem_singleton] at hpiece
        exact hpiece ▸ List.infix_refl text

theorem infix_of_mem_splitChar (hpiece : piece ∈ splitChar c text) : piece <:+: text := by
  unfold splitChar at hpiece
  simp only at hpiece
  split at hpiece
  · exact infix_of_mem_splitOnP (List.dropLast_subset _ hpiece)
  · exact infix_of_mem_splitOnP hpiece

theorem getLast?_splitOnP (hd : d ≠ c) (text : Bytes) :
    ∃ last, ((text ++ [d]).splitOnP (· == c)).getLast? = some (last ++ [d]) := by
  induction hlength : text.length using Nat.strongRecOn generalizing text with
  | ind n ih =>
      by_cases hc : c ∈ text
      · obtain ⟨first, rest, rfl, hfirst⟩ := exists_split_of_mem hc
        have hshorter : rest.length < n := by
          rw [← hlength, List.length_append, List.length_cons]
          omega
        obtain ⟨last, hlast⟩ := ih _ hshorter rest rfl
        refine ⟨last, ?_⟩
        rw [List.append_assoc, List.cons_append, splitOnP_append, List.getLast?_append, hlast]
        rfl
      · refine ⟨text, ?_⟩
        rw [splitOnP_of_notMem (by simp [hc, Ne.symm hd]), List.getLast?_singleton]

theorem splitChar_concat (hd : d ≠ c) (text : Bytes) :
    splitChar c (text ++ [d]) = (text ++ [d]).splitOnP (· == c) := by
  obtain ⟨last, hlast⟩ := getLast?_splitOnP hd text
  unfold splitChar
  simp only [hlast]
  rw [if_neg (by simp)]

theorem Blanks.spaces (blanks : Blanks) : ∀ c ∈ blanks.text, isSpace c = true := by
  intro c hc
  rcases blanks.blank c hc with rfl | rfl
  · decide
  · decide

theorem Blanks.notMem (blanks : Blanks) (hc : isSpace c = false) : c ∉ blanks.text := by
  intro hmem
  rw [blanks.spaces c hmem] at hc
  cases hc

theorem Link.url_notMem (link : Link) (hc : isUriChar c = false) : c ∉ link.url := by
  intro hmem
  rw [link.url_legal c hmem] at hc
  cases hc

theorem Link.rel_notMem (link : Link) (hc : isUriChar c = false) (hspace : c ≠ 32) :
    c ∉ link.rel := by
  intro hmem
  rcases link.rel_legal c hmem with huri | rfl
  · rw [huri] at hc
    cases hc
  · exact hspace rfl

theorem infix_of_trim (text : Bytes) : trim text <:+: text := by
  have hfront := (List.dropWhile_suffix isSpace (l := text)).isInfix
  have hback := (List.dropWhile_suffix isSpace
    (l := (text.dropWhile isSpace).reverse)).reverse
  rw [List.reverse_reverse] at hback
  exact hback.isInfix.trans hfront

theorem trim_padded (leading trailing : Blanks) (hc : isSpace c = false) (hd : isSpace d = false)
    (text : Bytes) :
    trim (leading.text ++ (c :: (text ++ [d]) ++ trailing.text)) = c :: (text ++ [d]) := by
  have htrailing : ∀ b ∈ trailing.text.reverse, isSpace b = true :=
    fun b hb => trailing.spaces b (List.mem_reverse.mp hb)
  have hreverse : (c :: (text ++ [d]) ++ trailing.text).reverse =
      trailing.text.reverse ++ d :: (text.reverse ++ [c]) := by simp
  rw [trim, List.dropWhile_append_of_pos leading.spaces, List.cons_append,
    List.dropWhile_cons_of_neg (by simp [hc]), ← List.cons_append, hreverse,
    List.dropWhile_append_of_pos htrailing, List.dropWhile_cons_of_neg (by simp [hd])]
  simp

/-- The piece has the relation that is looked for. -/
def HasNext (piece : Bytes) : Prop :=
  ∃ target parameter, splitChar semicolon piece = [target, parameter] ∧
    trim parameter = bytes "rel=\"next\""

theorem parseNextUrlFrom_pair {target parameter : Bytes}
    (hparts : splitChar semicolon piece = [target, parameter]) :
    parseNextUrlFrom content (piece :: rest) =
      if trim parameter = bytes "rel=\"next\"" then
        if !startsWith (trim target) (bytes "<") || !endsWith (trim target) (bytes ">") then
          .error (.linkHeader content)
        else .ok (substr (trim target) 1 ((trim target).length - 2))
      else parseNextUrlFrom content rest := by
  rw [parseNextUrlFrom, show splitChar 59 piece = _ from hparts]

theorem parseNextUrlFrom_other (hlength : (splitChar semicolon piece).length ≠ 2) :
    parseNextUrlFrom content (piece :: rest) = .error (.linkHeader content) := by
  rw [parseNextUrlFrom]
  split
  · rename_i target parameter hparts
    rw [show splitChar semicolon piece = _ from hparts] at hlength
    exact absurd rfl hlength
  · rfl

theorem parseNextUrlFrom_skip (hnext : ¬ HasNext piece) :
    parseNextUrlFrom content (piece :: rest) = .ok u ↔
      (splitChar semicolon piece).length = 2 ∧ parseNextUrlFrom content rest = .ok u := by
  by_cases hlength : (splitChar semicolon piece).length = 2
  · obtain ⟨target, parameter, hparts⟩ := List.length_eq_two.mp hlength
    rw [parseNextUrlFrom_pair hparts, if_neg fun hrel => hnext ⟨target, parameter, hparts, hrel⟩]
    simp [hlength]
  · rw [parseNextUrlFrom_other hlength]
    simp [hlength]

theorem parseNextUrlFrom_append (hnext : ∀ piece ∈ pieces, ¬ HasNext piece) :
    parseNextUrlFrom content (pieces ++ rest) = .ok u ↔
      (∀ piece ∈ pieces, (splitChar semicolon piece).length = 2) ∧
        parseNextUrlFrom content rest = .ok u := by
  induction pieces with
  | nil => simp
  | cons piece pieces ih =>
      rw [List.forall_mem_cons] at hnext
      rw [List.cons_append, parseNextUrlFrom_skip hnext.1, ih hnext.2, List.forall_mem_cons,
        and_assoc]

theorem HasNext.isInfix (hnext : HasNext piece) : bytes "rel=\"next\"" <:+: piece := by
  obtain ⟨target, parameter, hparts, hrel⟩ := hnext
  rw [← hrel]
  refine (infix_of_trim parameter).trans (infix_of_mem_splitChar (c := semicolon) ?_)
  rw [hparts]
  exact List.mem_cons_of_mem _ List.mem_cons_self

theorem Link.text_eq (link : Link) : ∃ opening, quote ∉ opening ∧
    link.text = opening ++ quote :: (link.rel ++ quote :: link.trailing.text) := by
  refine ⟨link.target ++ semicolon :: (link.behindSemicolon.text ++ bytes "rel="), ?_, ?_⟩
  · have hblank : isSpace quote = false := by decide
    have hrel : quote ∉ bytes "rel=" := by decide
    have hsemicolon : quote ≠ semicolon := by decide
    have hangle : quote ≠ 60 ∧ quote ≠ 62 := by decide
    have hurl := link.url_notMem (c := quote) (by decide)
    simp [target, Blanks.notMem _ hblank, hurl, hrel, hsemicolon, hangle]
  · have hparameter : bytes "rel=\"" = bytes "rel=" ++ [quote] := by decide
    simp [text, parameter, hparameter]

theorem Link.isNext_of_infix (hpart : bytes "rel=\"next\"" <:+: link.text) : link.IsNext := by
  obtain ⟨opening, hopening, htext⟩ := link.text_eq
  obtain ⟨front, back, hfound⟩ := hpart
  have hquoted : bytes "rel=\"next\"" = bytes "rel=" ++ quote :: (bytes "next" ++ [quote]) := by
    decide
  have hsplit : opening ++ quote :: (link.rel ++ quote :: link.trailing.text) =
      (front ++ bytes "rel=") ++ quote :: (bytes "next" ++ quote :: back) := by
    rw [← htext, ← hfound, hquoted]
    simp
  have hrel : quote ∉ link.rel := link.rel_notMem (by decide) (by decide)
  have htrailing : quote ∉ link.trailing.text := link.trailing.notMem (by decide)
  have hfront : quote ∉ front := by
    -- there are two quotes on either side
    have hcount := congrArg (List.count quote) hsplit
    simp only [List.count_append, List.count_cons_self, List.count_eq_zero_of_not_mem hopening,
      List.count_eq_zero_of_not_mem hrel, List.count_eq_zero_of_not_mem htrailing] at hcount
    rw [← List.count_eq_zero]
    omega
  have hleft : quote ∉ front ++ bytes "rel=" := by
    have hquote : quote ∉ bytes "rel=" := by decide
    simp [hfront, hquote]
  obtain ⟨-, hrest⟩ := append_cons_inj_first hopening hleft hsplit
  exact (append_cons_inj_first hrel (by decide) hrest).1

theorem not_hasNext_of_piece (hlink : ¬ link.IsNext) (hpiece : piece ∈ commaPieces link.text) :
    ¬ HasNext piece :=
  fun hnext => hlink (Link.isNext_of_infix (hnext.isInfix.trans (infix_of_mem_splitOnP hpiece)))

theorem Link.parameter_of_isNext (hnext : link.IsNext) :
    comma ∉ link.parameter ∧ semicolon ∉ link.parameter ∧
      trim link.parameter = bytes "rel=\"next\"" ∧
        ∃ front last, link.parameter = front ++ [last] ∧ last ≠ comma ∧ last ≠ semicolon := by
  have hrel : bytes "rel=\"" ++ (link.rel ++ quote :: link.trailing.text) =
      114 :: (bytes "el=\"next" ++ [quote]) ++ link.trailing.text := by
    have hopening : bytes "rel=\"" = 114 :: bytes "el=\"" := by decide
    have hclosed : bytes "el=\"next" = bytes "el=\"" ++ bytes "next" := by decide
    rw [show link.rel = bytes "next" from hnext, hopening, hclosed]
    simp
  have hparameter : link.parameter = link.behindSemicolon.text ++
      (114 :: (bytes "el=\"next" ++ [quote]) ++ link.trailing.text) :=
    congrArg (link.behindSemicolon.text ++ ·) hrel
  have hnone : ∀ c : UInt8, isSpace c = false → c ∉ 114 :: (bytes "el=\"next" ++ [quote]) →
      c ∉ link.parameter := by
    intro c hspace hc
    rw [hparameter, List.mem_append, List.mem_append]
    rintro (hmem | hmem | hmem)
    · exact link.behindSemicolon.notMem hspace hmem
    · exact hc hmem
    · exact link.trailing.notMem hspace hmem
  have hcomma : comma ∉ link.parameter := hnone comma (by decide) (by decide)
  have hsemicolon : semicolon ∉ link.parameter := hnone semicolon (by decide) (by decide)
  refine ⟨hcomma, hsemicolon, ?_, ?_⟩
  · rw [hparameter]
    exact (trim_padded _ _ (by decide) (by decide) _).trans (by decide)
  · obtain ⟨front, last, hfront⟩ : ∃ front last, link.parameter = front ++ [last] :=
      ⟨_, _, (List.dropLast_append_getLast (by simp [Link.parameter])).symm⟩
    have hlast : last ∈ link.parameter := by simp [hfront]
    exact ⟨front, last, hfront, fun heq => hcomma (heq ▸ hlast),
      fun heq => hsemicolon (heq ▸ hlast)⟩

theorem parse_tail (hnext : link.IsNext) (head : Bytes) :
    parseNextUrlFrom content ((head ++ semicolon :: link.parameter) :: rest) =
      if semicolon ∈ head then .error (.linkHeader content)
      else if !startsWith (trim head) (bytes "<") || !endsWith (trim head) (bytes ">") then
        .error (.linkHeader content)
      else .ok (substr (trim head) 1 ((trim head).length - 2)) := by
  obtain ⟨-, hsemicolon, htrim, front, last, hfront, -, hlast⟩ := Link.parameter_of_isNext hnext
  have hparts : splitChar semicolon (head ++ semicolon :: link.parameter) =
      head.splitOnP (· == semicolon) ++ [link.parameter] := by
    have hconcat : head ++ semicolon :: link.parameter =
        (head ++ semicolon :: front) ++ [last] := by
      simp [hfront]
    rw [hconcat, splitChar_concat hlast, ← hconcat, splitOnP_append,
      splitOnP_of_notMem hsemicolon]
  by_cases hhead : semicolon ∈ head
  · obtain ⟨first, more, rfl, hfirst⟩ := exists_split_of_mem hhead
    obtain ⟨second, others, hmore⟩ :=
      List.exists_cons_of_ne_nil (List.splitOnP_ne_nil (· == semicolon) more)
    rw [if_pos hhead]
    apply parseNextUrlFrom_other
    rw [hparts, splitOnP_append, splitOnP_of_notMem hfirst, hmore]
    simp
  · rw [splitOnP_of_notMem hhead, List.singleton_append] at hparts
    rw [if_neg hhead, parseNextUrlFrom_pair hparts, if_pos htrim]

theorem trim_target (link : Link) : trim link.target = 60 :: (link.url ++ [62]) := by
  have hpadded := trim_padded link.leading link.beforeSemicolon (c := 60) (d := 62) (by decide)
    (by decide) link.url
  have htarget : link.target =
      link.leading.text ++ (60 :: (link.url ++ [62]) ++ link.beforeSemicolon.text) := by
    simp [Link.target]
  rwa [htarget]

theorem parse_whole (hnext : link.IsNext) (hsemicolon : semicolon ∉ link.url) :
    parseNextUrlFrom content (link.text :: rest) = .ok link.url := by
  have hhead : semicolon ∉ link.target := by
    have hangle : semicolon ≠ 60 ∧ semicolon ≠ 62 := by decide
    simp [Link.target, Blanks.notMem _ (c := semicolon) (by decide), hsemicolon, hangle]
  have hopen : startsWith (60 :: (link.url ++ [62])) (bytes "<") = true :=
    List.isPrefixOf_iff_prefix.mpr ⟨link.url ++ [62], rfl⟩
  have hclose : endsWith (60 :: (link.url ++ [62])) (bytes ">") = true :=
    List.isSuffixOf_iff_suffix.mpr ⟨60 :: link.url, rfl⟩
  rw [Link.text, parse_tail hnext, if_neg hhead, trim_target, hopen, hclose]
  simp [substr]

theorem parse_next (hnext : link.IsNext) :
    parseNextUrlFrom content (commaPieces link.text ++ rest) = .ok u ↔
      link.url = u ∧ comma ∉ link.url ∧ semicolon ∉ link.url := by
  obtain ⟨hparameter, -⟩ := Link.parameter_of_isNext hnext
  have hblank : isSpace comma = false := by decide
  have hangle : comma ≠ 60 ∧ comma ≠ 62 ∧ comma ≠ semicolon := by decide
  by_cases hcomma : comma ∈ link.url
  · refine ⟨fun hparse => ?_, fun h => absurd hcomma h.2.1⟩
    -- behind the last comma there is no opening bracket
    obtain ⟨last, front, hsplit, hlast⟩ := exists_split_of_mem (List.mem_reverse.mpr hcomma)
    have hurl : link.url = front.reverse ++ comma :: last.reverse := by
      rw [← List.reverse_reverse link.url, hsplit]
      simp
    have htext : link.text = (link.leading.text ++ 60 :: front.reverse) ++ comma ::
        ((last.reverse ++ 62 :: link.beforeSemicolon.text) ++ semicolon :: link.parameter) := by
      simp [Link.text, Link.target, hurl]
    have htail : comma ∉ (last.reverse ++ 62 :: link.beforeSemicolon.text) ++
        semicolon :: link.parameter := by
      simp [hlast, hangle, Blanks.notMem _ hblank, hparameter]
    have hquote : quote ∉ link.leading.text ++ 60 :: front.reverse := by
      have hnone := link.url_notMem (c := quote) (by decide)
      rw [hurl, List.mem_append, not_or] at hnone
      have hne : quote ≠ 60 := by decide
      simp only [List.mem_append, List.mem_cons, not_or]
      exact ⟨link.leading.notMem (by decide), hne, hnone.1⟩
    have hpieces : ∀ piece ∈ commaPieces (link.leading.text ++ 60 :: front.reverse),
        ¬ HasNext piece := by
      intro piece hpiece hhas
      have hpart := hhas.isInfix.trans (infix_of_mem_splitOnP hpiece)
      exact hquote (hpart.subset (by decide))
    rw [htext, commaPieces, splitOnP_append, splitOnP_of_notMem htail, List.append_assoc,
      List.singleton_append] at hparse
    have hrest := ((parseNextUrlFrom_append hpieces).mp hparse).2
    rw [parse_tail hnext] at hrest
    split at hrest
    · cases hrest
    split at hrest
    · cases hrest
    rename_i hbrackets
    have hopen : startsWith (trim (last.reverse ++ 62 :: link.beforeSemicolon.text)) (bytes "<") =
        true := by
      simp only [Bool.or_eq_true, Bool.not_eq_true', not_or, Bool.not_eq_false] at hbrackets
      exact hbrackets.1
    have hmem : (60 : UInt8) ∈ last.reverse ++ 62 :: link.beforeSemicolon.text := by
      obtain ⟨more, hmore⟩ := List.isPrefixOf_iff_prefix.mp hopen
      apply (infix_of_trim _).subset
      rw [← hmore]
      exact List.mem_append_left _ (by decide)
    have hnone := link.url_notMem (c := 60) (by decide)
    rw [hurl, List.mem_append, List.mem_cons, not_or, not_or] at hnone
    rw [List.mem_append, List.mem_cons] at hmem
    rcases hmem with hlast' | h62 | hblank'
    · exact absurd hlast' hnone.2.2
    · exact absurd h62 (by decide)
    · exact absurd hblank' (link.beforeSemicolon.notMem (by decide))
  · have htext : comma ∉ link.text := by
      simp [Link.text, Link.target, Blanks.notMem _ hblank, hcomma, hangle, hparameter]
    rw [commaPieces, splitOnP_of_notMem htext, List.singleton_append]
    by_cases hsemicolon : semicolon ∈ link.url
    · rw [Link.text, parse_tail hnext, if_pos (by simp [Link.target, hsemicolon])]
      exact ⟨by simp, fun h => absurd hsemicolon h.2.2⟩
    · rw [parse_whole hnext hsemicolon]
      simp [hcomma, hsemicolon]

theorem Link.text_last (link : Link) :
    ∃ front last, link.text = front ++ [last] ∧ last ≠ comma := by
  obtain ⟨opening, -, htext⟩ := link.text_eq
  have hne : link.text ≠ [] := by simp [htext]
  refine ⟨_, _, (List.dropLast_append_getLast hne).symm, fun hcomma => ?_⟩
  have hlast : ∃ front, link.text = front ++ quote :: link.trailing.text :=
    ⟨opening ++ quote :: link.rel, by simp [htext]⟩
  obtain ⟨front, hfront⟩ := hlast
  have hmem : comma ∈ quote :: link.trailing.text := by
    rw [← hcomma]
    simp only [hfront]
    rw [List.getLast_append_of_ne_nil _ (List.cons_ne_nil _ _)]
    exact List.getLast_mem _
  rcases List.mem_cons.mp hmem with heq | hblank
  · exact absurd heq (by decide)
  · exact link.trailing.notMem (by decide) hblank

theorem headerText_last (hlinks : links ≠ []) :
    ∃ front last, headerText links = front ++ [last] ∧ last ≠ comma := by
  induction links with
  | nil => exact absurd rfl hlinks
  | cons link links ih =>
      cases links with
      | nil =>
          obtain ⟨front, last, htext, hlast⟩ := link.text_last
          exact ⟨front, last, by simp [headerText, htext], hlast⟩
      | cons next links =>
          obtain ⟨front, last, htext, hlast⟩ := ih (List.cons_ne_nil _ _)
          refine ⟨link.text ++ comma :: front, last, ?_, hlast⟩
          rw [headerText] at htext ⊢
          rw [List.map_cons, List.map_cons, List.intercalate_cons_cons, ← List.map_cons, htext]
          simp

theorem splitChar_headerText (links : List Link) :
    splitChar comma (headerText links) = links.flatMap fun link => commaPieces link.text := by
  by_cases hlinks : links = []
  · subst hlinks
    rfl
  obtain ⟨front, last, htext, hlast⟩ := headerText_last hlinks
  rw [htext, splitChar_concat hlast, ← htext]
  clear htext
  induction links with
  | nil => exact absurd rfl hlinks
  | cons link links ih =>
      cases links with
      | nil => simp [headerText, commaPieces]
      | cons next links =>
          have hrest := ih (List.cons_ne_nil _ _)
          rw [headerText] at hrest ⊢
          rw [List.map_cons, List.map_cons, List.intercalate_cons_cons, ← List.map_cons,
            List.append_assoc, List.singleton_append, splitOnP_append, hrest, List.flatMap_cons]
          rfl

theorem parse_links (links : List Link) :
    parseNextUrlFrom content (links.flatMap fun link => commaPieces link.text) = .ok u ↔
      Unbroken links u := by
  induction links with
  | nil =>
      refine ⟨nofun, ?_⟩
      rintro ⟨before, link, after, hsplit, -⟩
      simp at hsplit
  | cons link links ih =>
      rw [List.flatMap_cons]
      by_cases hnext : link.IsNext
      · rw [parse_next hnext]
        constructor
        · rintro ⟨rfl, hcomma, hsemicolon⟩
          exact ⟨[], link, links, rfl, hnext, rfl, hcomma, hsemicolon, nofun⟩
        · rintro ⟨before, other, after, hsplit, -, hurl, hcomma, hsemicolon, hbefore⟩
          cases before with
          | nil =>
              cases hsplit
              exact ⟨hurl, hurl ▸ hcomma, hurl ▸ hsemicolon⟩
          | cons first before =>
              cases hsplit
              exact absurd hnext (hbefore _ List.mem_cons_self).1
      · rw [parseNextUrlFrom_append fun piece => not_hasNext_of_piece hnext, ih]
        constructor
        · rintro ⟨hdivided, before, other, after, rfl, hother, hurl, hcomma, hsemicolon, hbefore⟩
          refine ⟨link :: before, other, after, rfl, hother, hurl, hcomma, hsemicolon, ?_⟩
          rw [List.forall_mem_cons]
          exact ⟨⟨hnext, hdivided⟩, hbefore⟩
        · rintro ⟨before, other, after, hsplit, hother, hurl, hcomma, hsemicolon, hbefore⟩
          cases before with
          | nil =>
              cases hsplit
              exact absurd hother hnext
          | cons first before =>
              cases hsplit
              rw [List.forall_mem_cons] at hbefore
              exact ⟨hbefore.1.2, before, other, after, rfl, hother, hurl, hcomma, hsemicolon,
                hbefore.2⟩

/-- The parser returns the target of the first next link if no separator of the header cuts it
or breaks a link before it, and nothing else. -/
theorem parsesBack_iff (links : List Link) (u : Bytes) :
    parseNextUrlFromLinkHeader (headerText links) = .ok u ↔ Unbroken links u := by
  rw [parseNextUrlFromLinkHeader]
  change parseNextUrlFrom _ (splitChar comma (headerText links)) = _ ↔ _
  rw [splitChar_headerText, parse_links]

/-- A link to the previous page and one to the next page, whose cursor has a comma. -/
def cursorLinks : List Link :=
  [{ url := bytes "https://huggingface.co/api/tree?cursor=a", rel := bytes "prev"
     url_legal := by decide +kernel },
   { url := bytes "https://huggingface.co/api/tree?cursor=b,c", rel := bytes "next"
     url_legal := by decide +kernel }]

theorem comma_in_cursor :
    (∃ link ∈ cursorLinks, link.IsNext ∧
      link.url = bytes "https://huggingface.co/api/tree?cursor=b,c") ∧
    parseNextUrlFromLinkHeader (headerText cursorLinks) =
      .error (.linkHeader (headerText cursorLinks)) := by
  refine ⟨⟨_, List.mem_cons_of_mem _ List.mem_cons_self, rfl, rfl⟩, ?_⟩
  decide +kernel

end HaybarnHttpfs.LinkHeader
