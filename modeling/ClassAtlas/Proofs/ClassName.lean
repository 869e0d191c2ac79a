import ClassAtlas.ClassName
import Mathlib

/-!
# Laws of class names

Decomposition of an external name at its last dot, the round trip between internal names and class
paths, and the characterization of the class-entry filter. Specification: `SPEC_FULL.md` §4.2, line
46, and §10.6, lines 168 and 175–176.
-/

namespace ClassAtlas.ClassName

/-- A simple name holds no dot. -/
theorem dot_notMem_simple (name : String) : '.' ∉ (simple name).toList := by
  rw [simple, String.toList_ofList, List.mem_reverse]
  intro hdot
  simpa using List.mem_takeWhile_imp hdot

/-- A name without a dot is its own simple name and has an empty package. -/
theorem simple_of_dot_notMem {name : String} (h : '.' ∉ name.toList) :
    simple name = name ∧ package name = "" := by
  have hall : ∀ c ∈ name.toList.reverse, decide (c ≠ '.') = true := by
    intro c hc
    rw [List.mem_reverse] at hc
    exact decide_eq_true fun heq => h (heq ▸ hc)
  constructor
  · rw [simple, List.takeWhile_eq_self_iff.mpr hall, List.reverse_reverse, String.ofList_toList]
  · rw [package, List.dropWhile_eq_nil_iff.mpr hall]
    rfl

/-- A name with a dot is the concatenation of its package, a dot and its simple name. -/
theorem package_append_simple {name : String} (h : '.' ∈ name.toList) :
    package name ++ "." ++ simple name = name := by
  have hne : name.toList.reverse.dropWhile (· ≠ '.') ≠ [] := by
    intro hnil
    have hall := List.dropWhile_eq_nil_iff.mp hnil '.' (List.mem_reverse.mpr h)
    simp at hall
  have hdot : (name.toList.reverse.dropWhile (· ≠ '.')).head hne = '.' := by
    simpa using List.head_dropWhile_not (· ≠ '.') hne
  have hdrop : name.toList.reverse.dropWhile (· ≠ '.') =
      '.' :: (name.toList.reverse.dropWhile (· ≠ '.')).drop 1 := by
    conv_lhs => rw [← List.cons_head_tail hne, hdot, ← List.drop_one]
  apply String.toList_injective
  calc (package name ++ "." ++ simple name).toList
      = (name.toList.reverse.takeWhile (· ≠ '.') ++
          '.' :: (name.toList.reverse.dropWhile (· ≠ '.')).drop 1).reverse := by
        simp [package, simple]
    _ = name.toList := by
        rw [← hdrop, List.takeWhile_append_dropWhile, List.reverse_reverse]

/-- The class path of the external form of an internal name without dots is that internal name with
the class-file suffix. -/
theorem classPath_ofInternal {name : String} (h : '.' ∉ name.toList) :
    classPath (ofInternal name) = name ++ ".class" := by
  have hback : ∀ c ∈ name.toList,
      ((fun c => if c = '.' then '/' else c) ∘ fun c => if c = '/' then '.' else c) c = c := by
    intro c hc
    have hdot : c ≠ '.' := fun heq => h (heq ▸ hc)
    by_cases hslash : c = '/' <;> simp [hslash, hdot]
  have hname : (ofInternal name).map (fun c => if c = '.' then '/' else c) = name := by
    apply String.toList_injective
    rw [ofInternal, String.toList_map, String.toList_map, List.map_map, List.map_congr_left hback,
      List.map_id']
  rw [classPath, hname]

/-- Class entries are the paths with the class-file suffix, except those with a suffix of the two
descriptors. -/
theorem isClassEntry_iff (path : String) :
    isClassEntry path ↔ Text.endsWith ".class" path ∧
      ¬Text.endsWith "package-info.class" path ∧ ¬Text.endsWith "module-info.class" path := by
  rw [isClassEntry]
  cases hclass : Text.endsWith ".class" path with
  | false =>
    have hstem : Text.dropEnding? ".class".toList path.toList = none :=
      if_neg (Bool.eq_false_iff.mp hclass)
    rw [hstem]
    simp
  | true =>
    obtain ⟨stem, htext⟩ := List.isSuffixOf_iff_suffix.mp hclass
    have hstem := Text.dropEnding?_eq_some_iff.mpr htext.symm
    have hlonger (name : String) :
        name.toList.isSuffixOf stem = Text.endsWith (name ++ ".class") path := by
      rw [Text.endsWith, ← htext, String.toList_append, Bool.eq_iff_iff,
        List.isSuffixOf_iff_suffix, List.isSuffixOf_iff_suffix, List.suffix_append_self_iff]
    have hpackage : "package-info".toList.isSuffixOf stem =
        Text.endsWith "package-info.class" path := hlonger "package-info"
    have hmodule : "module-info".toList.isSuffixOf stem =
        Text.endsWith "module-info.class" path := hlonger "module-info"
    simp only [hstem, hpackage, hmodule]
    simp

end ClassAtlas.ClassName
