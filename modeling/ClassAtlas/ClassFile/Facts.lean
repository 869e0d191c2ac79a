import ClassAtlas.ClassFile.Basic
import ClassAtlas.ClassName
import ClassAtlas.Relation

/-!
# Relationship extraction

Facts stated by a class file: inheritance, interface implementation, field containment and
inner-class nesting, in this order and with repetitions. Specification: `SPEC_FULL.md` §4.2, lines
41–46, and §10.6, lines 177–178.
-/

namespace ClassAtlas

/-- Class named by a field descriptor, below any number of array dimensions. -/
def referencedClass? (descriptor : String) : Option String :=
  match descriptor.toList.dropWhile (· = '[') with
  | 'L' :: rest => (Text.dropEnding? [';'] rest).map String.ofList
  | _ => none

namespace ClassFile

/-- External name of the class. -/
def externalName (file : ClassFile) : String := ClassName.ofInternal file.name

/-- Inheritance, implementation and containment facts, with the class as their source. -/
def declaredFacts (file : ClassFile) : List Fact :=
  let fact (kind : RelationKind) (target : String) : Fact :=
    ⟨file.externalName, ClassName.ofInternal target, kind⟩
  file.superName.toList.map (fact .inheritance) ++
    file.interfaces.map (fact .interfaceImplementation) ++
    (file.fieldDescriptors.filterMap referencedClass?).map (fact .fieldContainment)

/-- Nesting fact of a record that names both classes. -/
def nestingFact? (entry : InnerClass) : Option Fact :=
  entry.outer.map fun outer =>
    ⟨ClassName.ofInternal outer, ClassName.ofInternal entry.inner, .innerClassNesting⟩

/-- All facts of a class file, in order. -/
def facts (file : ClassFile) : List Fact :=
  file.declaredFacts ++ file.innerClasses.filterMap nestingFact?

/-- Facts of a class file given by its bytes. -/
def extractFacts (bytes : List UInt8) : Except ClassFileError (List Fact) :=
  facts <$> parse bytes

end ClassFile

end ClassAtlas
