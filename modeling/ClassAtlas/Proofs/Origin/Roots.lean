import ClassAtlas.Proofs.Origin.Confinement
import Mathlib

/-!
# Dependence on the roots

The resolver of a classpath depends on the set of its roots only. Additional roots turn unknown
classes into application classes and change nothing else; an archive that cannot be catalogued is
ignored; reserved names are classified without any root. Specification: `SPEC_FULL.md` §4.1, line
38, and §7, line 78.
-/

namespace ClassAtlas

namespace OriginResolver

variable (made tree : FileTree) (name : String)

/-! ### Reserved names -/

/-- Platform classes are those with a reserved prefix. -/
theorem isPlatform_iff {name : String} :
    isPlatform name = true ↔ ∃ beginning ∈ platformPrefixes, beginning.toList <+: name.toList := by
  simp [isPlatform, Text.startsWith]

/-- The universal root type is classified by its name. -/
theorem resolve_rootObject (resolver : OriginResolver) :
    resolver.resolve tree rootObject = .rootObject := by
  rw [resolve, if_pos rfl]

/-- Platform classes are classified by their name. -/
theorem resolve_of_isPlatform (resolver : OriginResolver) {name : String} (h : name ≠ rootObject)
    (hplatform : isPlatform name = true) : resolver.resolve tree name = .platform := by
  rw [resolve, if_neg h, if_pos hplatform]

/-- A class whose path is not found is reserved or unknown. -/
theorem resolve_of_not_hasClassPath {resolver : OriginResolver} {tree : FileTree} {name : String}
    (h : resolver.hasClassPath tree (ClassName.classPath name) = false) :
    resolver.resolve tree name = onClasspath name ∨
      resolver.resolve tree name = .unknown ∧ onClasspath name = .application := by
  rw [resolve, onClasspath, h]
  split_ifs <;> simp_all

/-! ### Additional roots -/

/-- Additional roots find more class paths. -/
theorem hasClassPath_of_subset {roots more : List Root} (h : roots ⊆ more)
    (hfile : (ofRoots made roots).1.hasClassPath tree (ClassName.classPath name) = true) :
    (ofRoots made more).1.hasClassPath tree (ClassName.classPath name) = true := by
  rw [hasClassPath_classPath_iff] at hfile ⊢
  obtain ⟨path, archive, hroot, hopen, hentry⟩ | ⟨directory, hroot, hfile⟩ := hfile
  · exact .inl ⟨path, archive, h hroot, hopen, hentry⟩
  · exact .inr ⟨directory, h hroot, hfile⟩

/-- Additional roots change the answer `unknown` only, and only to `application`. -/
theorem resolve_of_subset {roots more : List Root} (h : roots ⊆ more) :
    (ofRoots made more).1.resolve tree name = (ofRoots made roots).1.resolve tree name ∨
      (ofRoots made roots).1.resolve tree name = .unknown ∧
        (ofRoots made more).1.resolve tree name = .application := by
  cases hfile : (ofRoots made roots).1.hasClassPath tree (ClassName.classPath name) with
  | true =>
    have hmore := hasClassPath_of_subset made tree name h hfile
    rw [resolve_of_hasClassPath hfile, resolve_of_hasClassPath hmore]
    exact .inl rfl
  | false =>
    cases hmore : (ofRoots made more).1.hasClassPath tree (ClassName.classPath name) with
    | true =>
      rw [resolve_of_hasClassPath hmore]
      obtain hsame | ⟨hunknown, happlication⟩ := resolve_of_not_hasClassPath hfile
      · exact .inl hsame.symm
      · exact .inr ⟨hunknown, happlication⟩
    | false =>
      left
      rw [resolve, resolve, hfile, hmore]

/-- The classification depends on the set of roots. -/
theorem resolve_of_same_roots {roots others : List Root}
    (h : ∀ root, root ∈ others ↔ root ∈ roots) :
    (ofRoots made others).1.resolve tree name = (ofRoots made roots).1.resolve tree name := by
  obtain heq | ⟨hunknown, -⟩ := resolve_of_subset made tree name fun root => (h root).mpr
  · exact heq
  · obtain heq | ⟨hother, -⟩ := resolve_of_subset made tree name fun root => (h root).mp
    · exact heq.symm
    · exact hother.trans hunknown.symm

/-! ### Archives that cannot be catalogued -/

/-- Add a root to a resolver with its reports. -/
def withRoot (known : OriginResolver × List Warning) (root : Root) :
    OriginResolver × List Warning :=
  let added := addRoot made known.1 root
  (added.1, known.2 ++ added.2)

/-- The resolver of a classpath as a fold. -/
theorem ofRoots_eq (roots : List Root) :
    ofRoots made roots = roots.foldl (withRoot made) (empty, []) := rfl

/-- Reports accumulate in front and do not affect the resolver. -/
theorem foldl_withRoot (resolver : OriginResolver) (warnings : List Warning) (roots : List Root) :
    roots.foldl (withRoot made) (resolver, warnings) =
      ((roots.foldl (withRoot made) (resolver, [])).1,
        warnings ++ (roots.foldl (withRoot made) (resolver, [])).2) := by
  induction roots generalizing resolver warnings with
  | nil => simp
  | cons root roots ih =>
    rw [List.foldl_cons, List.foldl_cons, withRoot, withRoot, ih, ih _ ([] ++ _)]
    simp

/-- An archive that cannot be catalogued contributes a report only. -/
theorem ofRoots_of_unopenable {path : String} {cause : ArchiveFailure}
    (h : Archive.openAt made path = .error cause) (before after : List Root) :
    (ofRoots made (before ++ .archive path :: after)).1 = (ofRoots made (before ++ after)).1 ∧
      (ofRoots made (before ++ .archive path :: after)).2.Perm
        (.uncataloged path cause :: (ofRoots made (before ++ after)).2) := by
  rcases hbefore : before.foldl (withRoot made) (empty, []) with ⟨resolver, warnings⟩
  have hadd : withRoot made (resolver, warnings) (.archive path) =
      (resolver, warnings ++ [.uncataloged path cause]) := by
    simp [withRoot, addRoot, h]
  rw [ofRoots_eq, ofRoots_eq, List.foldl_append, List.foldl_append, hbefore, List.foldl_cons, hadd,
    foldl_withRoot, foldl_withRoot made resolver warnings]
  refine ⟨rfl, ?_⟩
  rw [List.append_assoc]
  exact List.perm_middle

/-! ### Summary -/

/-- Dependence of a classification on the roots, catalogued in one tree and probed in a possibly
later one: invariance under order and repetition, no effect of archives that cannot be catalogued,
monotonicity, and the fixed classification of reserved names. -/
structure RootLaws (roots : List Root) : Prop where
  same {others : List Root} : (∀ root, root ∈ others ↔ root ∈ roots) →
    (ofRoots made others).1.resolve tree name = (ofRoots made roots).1.resolve tree name
  unopenable {before after : List Root} {path : String} {cause : ArchiveFailure} :
    roots = before ++ .archive path :: after → Archive.openAt made path = .error cause →
    (ofRoots made roots).1 = (ofRoots made (before ++ after)).1 ∧
      (ofRoots made roots).2.Perm
        (.uncataloged path cause :: (ofRoots made (before ++ after)).2)
  more {others : List Root} : roots ⊆ others →
    (ofRoots made others).1.resolve tree name = (ofRoots made roots).1.resolve tree name ∨
      (ofRoots made roots).1.resolve tree name = .unknown ∧
        (ofRoots made others).1.resolve tree name = .application
  rootObject : name = rootObject → (ofRoots made roots).1.resolve tree name = .rootObject
  platform : name ≠ OriginResolver.rootObject →
    (∃ beginning ∈ platformPrefixes, beginning.toList <+: name.toList) →
    (ofRoots made roots).1.resolve tree name = .platform

/-- The laws of `RootLaws` hold for all root lists. -/
theorem rootLaws (roots : List Root) : RootLaws made tree name roots where
  same := resolve_of_same_roots made tree name
  unopenable hroots hopen := hroots ▸ ofRoots_of_unopenable made hopen _ _
  more := resolve_of_subset made tree name
  rootObject hname := hname ▸ resolve_rootObject tree _
  platform hname hbeginning := resolve_of_isPlatform tree _ hname (isPlatform_iff.mpr hbeginning)

end OriginResolver

end ClassAtlas
