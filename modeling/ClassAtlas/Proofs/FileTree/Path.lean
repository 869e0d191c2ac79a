import ClassAtlas.FileTree.Path
import ClassAtlas.Text.Affix
import Mathlib

/-!
# Laws of paths

Decomposition into parts, file names, and joins. The parts of a join are the concatenation of the
parts, and iterated joins equal the join of the slash-separated names. Specification: `SPEC_FULL.md`
§6, line 71.
-/

namespace ClassAtlas.Path

/-! ### Parts -/

/-- Every path has a part. -/
theorem splitSlashes_ne_nil (text : List Char) : splitSlashes text ≠ [] := by
  cases text with
  | nil => simp [splitSlashes]
  | cons c rest =>
    rw [splitSlashes]
    split
    · simp
    · split <;> simp

/-- The parts of a concatenation at a slash. -/
theorem splitSlashes_append_cons (first second : List Char) :
    splitSlashes (first ++ '/' :: second) = splitSlashes first ++ splitSlashes second := by
  induction first with
  | nil => simp [splitSlashes]
  | cons c rest ih =>
    rw [List.cons_append, splitSlashes, splitSlashes, ih]
    split
    · rfl
    · cases h : splitSlashes rest with
      | nil => exact absurd h (splitSlashes_ne_nil rest)
      | cons part parts => rfl

/-- A text without a slash is its only part. -/
theorem splitSlashes_of_slash_notMem {text : List Char} (h : '/' ∉ text) :
    splitSlashes text = [text] := by
  induction text with
  | nil => rfl
  | cons c rest ih =>
    rw [List.mem_cons, not_or] at h
    obtain ⟨hc, hrest⟩ := h
    rw [splitSlashes, if_neg (Ne.symm hc), ih hrest]

/-- A suffix without a slash extends the last part. -/
theorem exists_splitSlashes_append (text : List Char) {ending : List Char} (h : '/' ∉ ending) :
    ∃ parts last, splitSlashes text = parts ++ [last] ∧
      splitSlashes (text ++ ending) = parts ++ [last ++ ending] := by
  induction text with
  | nil => exact ⟨[], [], rfl, splitSlashes_of_slash_notMem h⟩
  | cons c rest ih =>
    obtain ⟨parts, last, hrest, hlonger⟩ := ih
    rw [List.cons_append, splitSlashes, splitSlashes, hrest, hlonger]
    by_cases hc : c = '/'
    · simp only [hc, if_true]
      exact ⟨[] :: parts, last, rfl, rfl⟩
    · simp only [hc, if_false]
      cases parts with
      | nil => exact ⟨[], c :: last, rfl, rfl⟩
      | cons first others => exact ⟨(c :: first) :: others, last, rfl, rfl⟩

/-- Parts hold no slash and only characters of the text. -/
theorem notMem_of_mem_splitSlashes {text part : List Char} (h : part ∈ splitSlashes text) :
    '/' ∉ part ∧ ∀ c ∈ part, c ∈ text := by
  induction text generalizing part with
  | nil =>
    obtain rfl := List.mem_singleton.mp h
    simp
  | cons c rest ih =>
    have hlater : ∀ {part}, part ∈ splitSlashes rest → '/' ∉ part ∧ ∀ d ∈ part, d ∈ c :: rest :=
      fun hpart => ⟨(ih hpart).1, fun d hd => List.mem_cons_of_mem c ((ih hpart).2 d hd)⟩
    rw [splitSlashes] at h
    split at h
    · obtain rfl | hpart := List.mem_cons.mp h
      · simp
      · exact hlater hpart
    · next hc =>
      cases hsplit : splitSlashes rest with
      | nil => exact absurd hsplit (splitSlashes_ne_nil rest)
      | cons first others =>
        rw [hsplit] at h hlater
        obtain rfl | hpart := List.mem_cons.mp h
        · obtain ⟨hslash, hmem⟩ := hlater List.mem_cons_self
          refine ⟨?_, ?_⟩
          · rw [List.mem_cons, not_or]
            exact ⟨fun heq => hc heq.symm, hslash⟩
          · intro d hd
            obtain rfl | hd := List.mem_cons.mp hd
            · exact List.mem_cons_self
            · exact hmem d hd
        · exact hlater (List.mem_cons_of_mem _ hpart)

/-- Parts of a path hold no slash and only characters of the path. -/
theorem notMem_of_mem_segments {path part : String} (h : part ∈ segments path) :
    '/' ∉ part.toList ∧ ∀ c ∈ part.toList, c ∈ path.toList := by
  obtain ⟨text, htext, rfl⟩ := List.mem_map.mp h
  rw [String.toList_ofList]
  exact notMem_of_mem_splitSlashes htext

/-- The parts of two texts with a slash in between. -/
theorem segments_slash (first second : String) :
    segments (first ++ "/" ++ second) = segments first ++ segments second := by
  have htext : (first ++ "/" ++ second).toList = first.toList ++ '/' :: second.toList := by simp
  rw [segments, htext, splitSlashes_append_cons, List.map_append]
  rfl

/-- A name is its only part. -/
theorem segments_of_slash_notMem {name : String} (h : '/' ∉ name.toList) :
    segments name = [name] := by
  rw [segments, splitSlashes_of_slash_notMem h, List.map_singleton, String.ofList_toList]

/-- A non-empty relative path begins with a name. -/
theorem exists_segments_cons {path : String} (hne : path ≠ "") (h : isAbsolute path = false) :
    ∃ first rest, segments path = first :: rest ∧ first ≠ "" := by
  have htext : path.toList ≠ [] := by simpa using hne
  obtain ⟨c, text, hpath⟩ := List.exists_cons_of_ne_nil htext
  have hc : c ≠ '/' := by
    rintro rfl
    simp [isAbsolute, hpath] at h
  rw [segments, hpath, splitSlashes, if_neg hc]
  cases splitSlashes text with
  | nil => exact ⟨_, _, rfl, by simp⟩
  | cons part parts => exact ⟨_, _, rfl, by simp⟩

/-- The parts of slash-separated names are the names. -/
theorem segments_intercalate {names : List String} (hne : names ≠ [])
    (h : ∀ name ∈ names, '/' ∉ name.toList) : segments (String.intercalate "/" names) = names := by
  induction names with
  | nil => exact absurd rfl hne
  | cons name rest ih =>
    cases rest with
    | nil => exact segments_of_slash_notMem (h name (by simp))
    | cons next others =>
      rw [String.intercalate_cons_cons, segments_slash,
        segments_of_slash_notMem (h name (by simp)),
        ih (by simp) fun name hname => h name (List.mem_cons_of_mem _ hname), List.singleton_append]

/-- The characters of slash-separated names are those of the names and slashes. -/
theorem mem_intercalate {names : List String} {c : Char}
    (h : c ∈ (String.intercalate "/" names).toList) :
    (∃ name ∈ names, c ∈ name.toList) ∨ c = '/' := by
  induction names with
  | nil => simp at h
  | cons name rest ih =>
    cases rest with
    | nil => exact .inl ⟨name, by simp, by simpa using h⟩
    | cons next others =>
      rw [String.intercalate_cons_cons, String.toList_append, String.toList_append, List.mem_append,
        List.mem_append] at h
      obtain (hc | hc) | hc := h
      · exact .inl ⟨name, by simp, hc⟩
      · exact .inr (by simpa using hc)
      · exact (ih hc).imp_left fun ⟨other, hmem, hother⟩ =>
          ⟨other, List.mem_cons_of_mem _ hmem, hother⟩

/-! ### File names -/

/-- A path ends in its file name, which holds no slash and is preceded by one or by nothing. -/
theorem exists_fileName (path : String) :
    ∃ front, path.toList = front ++ (fileName path).toList ∧ '/' ∉ (fileName path).toList ∧
      (front = [] ∨ ∃ before, front = before ++ ['/']) := by
  by_cases hslash : '/' ∈ path.toList
  · obtain ⟨back, front, hsplit, hback⟩ :=
      List.eq_append_cons_of_mem (List.mem_reverse.mpr hslash)
    have htext : path.toList = front.reverse ++ '/' :: back.reverse := by
      rw [← List.reverse_reverse path.toList, hsplit]
      simp
    have hlast : '/' ∉ back.reverse := by simpa using hback
    have hname : (fileName path).toList = back.reverse := by
      rw [fileName, segments, htext, splitSlashes_append_cons, splitSlashes_of_slash_notMem hlast]
      simp
    exact ⟨front.reverse ++ ['/'], by simp [htext, hname], hname ▸ hlast, .inr ⟨_, rfl⟩⟩
  · have hname : fileName path = path := by
      rw [fileName, segments_of_slash_notMem hslash]
      rfl
    exact ⟨[], by simp [hname], hname.symm ▸ hslash, .inl rfl⟩

/-- A suffix without slashes is a suffix of the path if and only if it is one of the file name. -/
theorem endsWith_fileName {ending : String} (h : '/' ∉ ending.toList) (path : String) :
    Text.endsWith ending (fileName path) = Text.endsWith ending path := by
  obtain ⟨front, htext, -, hfront⟩ := exists_fileName path
  rw [Text.endsWith, Text.endsWith, htext, Bool.eq_iff_iff, List.isSuffixOf_iff_suffix,
    List.isSuffixOf_iff_suffix]
  refine ⟨fun hsuffix => hsuffix.trans (List.suffix_append _ _), fun hsuffix => ?_⟩
  obtain hshort | ⟨more, hmore⟩ :=
    List.suffix_or_suffix_of_suffix hsuffix (List.suffix_append front (fileName path).toList)
  · exact hshort
  · -- A longer ending would reach the slash before the name.
    rw [← hmore, List.suffix_append_self_iff] at hsuffix
    have hnone : more = [] := by
      obtain rfl | ⟨before, rfl⟩ := hfront
      · exact List.suffix_nil.mp hsuffix
      · obtain rfl | ⟨rest, rfl, -⟩ := List.suffix_concat_iff.mp hsuffix
        · rfl
        · exact absurd (by simp [← hmore]) h
    rw [← hmore, hnone]
    exact List.suffix_rfl

/-! ### Joins -/

/-- A non-empty prefix determines whether a path is absolute. -/
theorem isAbsolute_append {first : String} (hne : first ≠ "") (second : String) :
    isAbsolute (first ++ second) = isAbsolute first := by
  have htext : first.toList ≠ [] := by simpa using hne
  obtain ⟨c, rest, hrest⟩ := List.exists_cons_of_ne_nil htext
  simp [isAbsolute, hrest]

/-- A text without a slash is relative. -/
theorem isAbsolute_of_slash_notMem {name : String} (h : '/' ∉ name.toList) :
    isAbsolute name = false := by
  rw [isAbsolute, beq_eq_false_iff_ne]
  exact fun hhead => h (List.mem_of_mem_head? hhead)

/-- Slash-separated names are relative. -/
theorem isAbsolute_intercalate {names : List String}
    (h : ∀ name ∈ names, name ≠ "" ∧ '/' ∉ name.toList) :
    isAbsolute (String.intercalate "/" names) = false := by
  cases names with
  | nil => rfl
  | cons name rest =>
    obtain ⟨hne, hslash⟩ := h name (by simp)
    cases rest with
    | nil => exact isAbsolute_of_slash_notMem hslash
    | cons next others =>
      rw [String.intercalate_cons_cons, String.append_assoc, isAbsolute_append hne,
        isAbsolute_of_slash_notMem hslash]

/-- The join of a relative path is its concatenation, with a slash in between unless the base ends
in one. -/
theorem join_eq {base path : String} (hbase : base ≠ "") (hpath : isAbsolute path = false) :
    join base path =
      if base.toList.getLast? = some '/' then base ++ path else base ++ "/" ++ path := by
  have hempty : base.isEmpty = false := by simpa using hbase
  simp [join, hpath, hempty]

/-- Joining to the empty base is the identity. -/
theorem join_empty (path : String) : join "" path = path := by
  simp [join]

/-- Joining a relative path preserves whether the base is absolute. -/
theorem isAbsolute_join {base path : String} (hpath : isAbsolute path = false) :
    isAbsolute (join base path) = isAbsolute base := by
  obtain rfl | hbase := eq_or_ne base ""
  · rw [join_empty, hpath]
    rfl
  rw [join_eq hbase hpath]
  split
  · exact isAbsolute_append hbase path
  · rw [String.append_assoc, isAbsolute_append hbase]

/-- The characters of a join are those of both paths and slashes. -/
theorem mem_join {base path : String} {c : Char} (h : c ∈ (join base path).toList) :
    c ∈ base.toList ∨ c ∈ path.toList ∨ c = '/' := by
  unfold join at h
  split at h
  · exact .inr (.inl h)
  · split at h <;> simp only [String.toList_append, List.mem_append] at h
    · exact h.imp_right .inl
    · obtain (hc | hc) | hc := h
      · exact .inl hc
      · exact .inr (.inr (by simpa using hc))
      · exact .inr (.inl hc)

/-- The parts of a join are the parts of both paths, except for an empty last part of the base. -/
theorem segments_join (base : String) {path : String} (hpath : isAbsolute path = false) :
    ∃ parts ending, (ending = [] ∨ ending = [""]) ∧ segments base = parts ++ ending ∧
      segments (join base path) = parts ++ segments path := by
  obtain rfl | hbase := eq_or_ne base ""
  · exact ⟨[], [""], .inr rfl, rfl, by rw [join_empty, List.nil_append]⟩
  rw [join_eq hbase hpath]
  split
  · next hlast =>
    obtain ⟨front, hfront⟩ := List.getLast?_eq_some_iff.mp hlast
    have htext : base = String.ofList front ++ "/" ++ "" := by
      apply String.toList_injective
      simp [hfront]
    have hlonger : base ++ path = String.ofList front ++ "/" ++ path := by
      rw [htext, String.append_empty]
    refine ⟨segments (String.ofList front), [""], .inr rfl, ?_, ?_⟩
    · rw [htext, segments_slash]
      rfl
    · rw [hlonger, segments_slash]
  · exact ⟨segments base, [], .inl rfl, by rw [List.append_nil], segments_slash base path⟩

/-- The significant parts of a join are those of both paths, if the second begins with one. -/
theorem components_join {base path first : String} {rest : List String}
    (hpath : isAbsolute path = false) (hsegments : segments path = first :: rest)
    (hfirst : first ≠ "" ∧ first ≠ ".") :
    components (join base path) = components base ++ components path := by
  obtain ⟨parts, ending, hending, hbase, hjoin⟩ := segments_join base hpath
  rw [hsegments] at hjoin
  cases parts with
  | nil =>
    obtain rfl : ending = [""] := by
      obtain rfl | rfl := hending
      · exact absurd (List.map_eq_nil_iff.mp hbase) (splitSlashes_ne_nil _)
      · rfl
    simp [components, hbase, hjoin, hsegments]
  | cons part parts =>
    obtain rfl | rfl := hending <;> simp [components, hbase, hjoin, hsegments, hfirst]

/-- Joining is associative behind a name. -/
theorem join_join {base name path : String} (hbase : base ≠ "") (hname : name ≠ "")
    (hslash : '/' ∉ name.toList) (hpath : isAbsolute path = false) :
    join (join base name) path = join base (name ++ "/" ++ path) := by
  have hrelative := isAbsolute_of_slash_notMem hslash
  have hlonger : isAbsolute (name ++ "/" ++ path) = false := by
    rw [String.append_assoc, isAbsolute_append hname, hrelative]
  have hlast : name.toList.getLast? ≠ some '/' := fun h => hslash (List.mem_of_getLast? h)
  have hnil : name.toList ≠ [] := by simpa using hname
  rw [join_eq hbase hrelative, join_eq hbase hlonger]
  split
  · rw [join_eq (by simp [hbase]) hpath, if_neg, String.append_assoc, String.append_assoc,
      String.append_assoc]
    rwa [String.toList_append, List.getLast?_append_of_ne_nil _ hnil]
  · rw [join_eq (by simp [hbase]) hpath, if_neg]
    · simp only [String.append_assoc]
    · rwa [String.toList_append, List.getLast?_append_of_ne_nil _ hnil]

/-- Iterated joins of names equal the join of the slash-separated names. -/
theorem foldl_join {base : String} {names : List String} (hbase : base ≠ "") (hne : names ≠ [])
    (h : ∀ name ∈ names, name ≠ "" ∧ '/' ∉ name.toList) :
    names.foldl join base = join base (String.intercalate "/" names) := by
  induction names generalizing base with
  | nil => exact absurd rfl hne
  | cons name rest ih =>
    obtain ⟨hname, hslash⟩ := h name (by simp)
    cases rest with
    | nil => rfl
    | cons next others =>
      have hrest : ∀ name ∈ next :: others, name ≠ "" ∧ '/' ∉ name.toList :=
        fun name hname => h name (List.mem_cons_of_mem _ hname)
      have hjoin : join base name ≠ "" := by
        rw [join_eq hbase (isAbsolute_of_slash_notMem hslash)]
        split <;> simp [hbase]
      rw [List.foldl_cons, ih hjoin (by simp) hrest,
        join_join hbase hname hslash (isAbsolute_intercalate hrest), String.intercalate_cons_cons]

end ClassAtlas.Path
