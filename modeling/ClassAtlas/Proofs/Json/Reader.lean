import ClassAtlas.Proofs.Json.Lexer
import Mathlib

/-!
# JSON parser

Pushdown parser over tokens. The invariant `State.passed` reconstructs the consumed tokens from the
state, so that the parser accepts exactly the token sequence of the value it returns. Specification:
`SPEC_FULL.md` §10.8, lines 199–201.
-/

namespace ClassAtlas.Json

/-! ### Parser -/

/-- Enclosing array or object with its components so far. -/
inductive Frame where
  | array (before : List Json)
  | object (before : List (String × Json)) (name : String)

/-- Parser state: the expected token class, with the stack of enclosing frames, innermost first. -/
inductive State where
  | value (stack : List Frame)
  | firstItem (stack : List Frame)
  | firstField (stack : List Frame)
  | field (stack : List Frame) (before : List (String × Json))
  | colon (stack : List Frame) (before : List (String × Json)) (name : String)
  | behind (stack : List Frame) (value : Json)

/-- Transition on an opening bracket where a value is expected. -/
def open? (stack : List Frame) (c : Char) : Option State :=
  if c = '[' then some (.firstItem stack)
  else if c = '\x7b' then some (.firstField stack)
  else none

/-- Transition on a field name. -/
def name? (stack : List Frame) (before : List (String × Json)) : Scalar → Option State
  | .text name => some (.colon stack before name)
  | _ => none

/-- Transition behind a value. -/
def next? (value : Json) : List Frame → Char → Option State
  | [], _ => none
  | .array before :: stack, c =>
    if c = ',' then some (.value (.array (before ++ [value]) :: stack))
    else if c = ']' then some (.behind stack (.array (before ++ [value])))
    else none
  | .object before name :: stack, c =>
    if c = ',' then some (.field stack (before ++ [(name, value)]))
    else if c = '\x7d' then some (.behind stack (.object (before ++ [(name, value)])))
    else none

/-- Transition on a token. -/
def step : State → Token → Option State
  | .value stack, .atom value => some (.behind stack (.scalar value))
  | .value stack, .mark c => open? stack c
  | .firstItem stack, .atom value => some (.behind (.array [] :: stack) (.scalar value))
  | .firstItem stack, .mark c =>
    if c = ']' then some (.behind stack (.array [])) else open? (.array [] :: stack) c
  | .firstField stack, .atom value => name? stack [] value
  | .firstField stack, .mark c => if c = '\x7d' then some (.behind stack (.object [])) else none
  | .field stack before, .atom value => name? stack before value
  | .field _ _, .mark _ => none
  | .colon _ _ _, .atom _ => none
  | .colon stack before name, .mark c =>
    if c = ':' then some (.value (.object before name :: stack)) else none
  | .behind _ _, .atom _ => none
  | .behind stack value, .mark c => next? value stack c

/-- Value of an accepting state. -/
def State.value? : State → Option Json
  | .behind [] read => some read
  | _ => none

/-- Parse a token sequence. -/
def parse? (tokens : List Token) : Option Json :=
  (tokens.foldlM step (.value [])).bind State.value?

/-- Parse a text. -/
def read? (text : String) : Option Json := (lex text.toList).bind parse?

/-! ### Consumed tokens -/

/-- Tokens consumed in front of a value under a stack. -/
def passed : List Frame → List Token
  | [] => []
  | .array before :: stack => passed stack ++ .mark '[' :: separated (before.map tokens)
  | .object before name :: stack =>
    passed stack ++ .mark '\x7b' :: (separated (before.map tokensOfField) ++
      [.atom (.text name), .mark ':'])

/-- Tokens consumed in a state. -/
def State.passed : State → List Token
  | .value stack => Json.passed stack
  | .firstItem stack => Json.passed stack ++ [.mark '[']
  | .firstField stack => Json.passed stack ++ [.mark '\x7b']
  | .field stack before =>
    Json.passed stack ++ .mark '\x7b' :: separated (before.map tokensOfField)
  | .colon stack before name =>
    Json.passed stack ++ .mark '\x7b' :: (separated (before.map tokensOfField) ++
      [.atom (.text name)])
  | .behind stack read => Json.passed stack ++ read.tokens

private theorem passed_open? {stack : List Frame} {c : Char} {next : State}
    (h : open? stack c = some next) : next.passed = passed stack ++ [.mark c] := by
  rw [open?] at h
  split_ifs at h with hlist hobject
  · obtain rfl := Option.some.inj h
    rw [hlist, State.passed]
  · obtain rfl := Option.some.inj h
    rw [hobject, State.passed]

private theorem passed_name? {stack : List Frame} {before : List (String × Json)} {value : Scalar}
    {next : State} (h : name? stack before value = some next) :
    next.passed = passed stack ++ .mark '\x7b' ::
      (separated (before.map tokensOfField) ++ [.atom value]) := by
  cases value with
  | text name =>
    obtain rfl := Option.some.inj h
    rw [State.passed]
  | null | boolean | number => cases h

private theorem passed_next? {stack : List Frame} {value : Json} {c : Char} {next : State}
    (h : next? value stack c = some next) :
    next.passed = passed stack ++ value.tokens ++ [.mark c] := by
  cases stack with
  | nil => cases h
  | cons frame stack =>
    cases frame with
    | array before =>
      rw [next?] at h
      split_ifs at h with hcomma hlast
      · obtain rfl := Option.some.inj h
        simp [State.passed, passed, separated_concat, hcomma]
      · obtain rfl := Option.some.inj h
        simp [State.passed, passed, tokens_array_concat, hlast]
    | object before name =>
      rw [next?] at h
      split_ifs at h with hcomma hlast
      · obtain rfl := Option.some.inj h
        simp [State.passed, passed, separated_concat, tokensOfField, hcomma]
      · obtain rfl := Option.some.inj h
        simp [State.passed, passed, tokens_object_concat, tokensOfField, hlast]

/-- A transition consumes its token. -/
theorem passed_step {state next : State} {token : Token} (h : step state token = some next) :
    next.passed = state.passed ++ [token] := by
  cases state with
  | value stack =>
    cases token with
    | atom value =>
      obtain rfl := Option.some.inj h
      rfl
    | mark c => exact passed_open? h
  | firstItem stack =>
    cases token with
    | atom value =>
      obtain rfl := Option.some.inj h
      rfl
    | mark c =>
      rw [step] at h
      split_ifs at h with hlast
      · obtain rfl := Option.some.inj h
        simp [State.passed, tokens, tokensOfItems, enclosed, hlast]
      · simpa [State.passed, passed, separated] using passed_open? h
  | firstField stack =>
    cases token with
    | atom value => simpa [State.passed, separated] using passed_name? h
    | mark c =>
      rw [step, Option.ite_none_right_eq_some] at h
      obtain ⟨rfl, h⟩ := h
      obtain rfl := Option.some.inj h
      simp [State.passed, tokens, tokensOfFields, enclosed]
  | field stack before =>
    cases token with
    | atom value => simpa [State.passed] using passed_name? h
    | mark c => cases h
  | colon stack before name =>
    cases token with
    | atom value => cases h
    | mark c =>
      rw [step, Option.ite_none_right_eq_some] at h
      obtain ⟨rfl, h⟩ := h
      obtain rfl := Option.some.inj h
      simp [State.passed, passed]
  | behind stack value =>
    cases token with
    | atom value => cases h
    | mark c => exact passed_next? h

/-- A run consumes its tokens. -/
theorem passed_foldlM {state next : State} {tokens : List Token}
    (h : tokens.foldlM step state = some next) : next.passed = state.passed ++ tokens := by
  induction tokens generalizing state with
  | nil =>
    obtain rfl := Option.some.inj h
    rw [List.append_nil]
  | cons token tokens ih =>
    rw [List.foldlM_cons, Option.bind_eq_bind, Option.bind_eq_some_iff] at h
    obtain ⟨middle, hstep, hrest⟩ := h
    rw [ih hrest, passed_step hstep, List.append_assoc, List.singleton_append]

/-! ### Completeness -/

/-- A value is expected in the state, under the stack. -/
structure Awaits (state : State) (stack : List Frame) : Prop where
  atom (value : Scalar) : step state (.atom value) = some (.behind stack (.scalar value))
  array : step state (.mark '[') = some (.firstItem stack)
  object : step state (.mark '\x7b') = some (.firstField stack)

private theorem awaits_value (stack : List Frame) : Awaits (.value stack) stack :=
  ⟨fun _ => rfl, rfl, rfl⟩

private theorem awaits_firstItem (stack : List Frame) :
    Awaits (.firstItem stack) (.array [] :: stack) :=
  ⟨fun _ => rfl, rfl, rfl⟩

/-- A value parses from its tokens in every state that expects one. -/
def IsParsed (value : Json) : Prop :=
  ∀ state stack, Awaits state stack → value.tokens.foldlM step state = some (.behind stack value)

/-- A run over comma-separated parts, given the states in front of a part, behind it, and behind the
closing bracket. -/
theorem foldlM_enclosed {β : Type} (last : Char) (part : β → List Token)
    (Ready : List β → State → Prop) (behind : List β → β → State) (closed : List β → State)
    (hcomma : ∀ before item, ∃ next, step (behind before item) (.mark ',') = some next ∧
      Ready (before ++ [item]) next)
    (hlast : ∀ before item,
      step (behind before item) (.mark last) = some (closed (before ++ [item])))
    {item : β} {items : List β}
    (hpart : ∀ item' ∈ item :: items, ∀ before state, Ready before state →
      (part item').foldlM step state = some (behind before item'))
    {before : List β} {state : State} (hstate : Ready before state) :
    (List.intercalate [Token.mark ','] ((item :: items).map part) ++
      [Token.mark last]).foldlM step state = some (closed (before ++ item :: items)) := by
  induction items generalizing item before state with
  | nil =>
    rw [List.map_singleton, List.intercalate_singleton, List.foldlM_append,
      hpart item List.mem_cons_self before state hstate, Option.bind_eq_bind, Option.bind_some,
      List.foldlM_cons, hlast]
    rfl
  | cons other items ih =>
    obtain ⟨hitem, hitems⟩ := List.forall_mem_cons.mp hpart
    obtain ⟨next, hnext, hready⟩ := hcomma before item
    rw [List.map_cons, List.map_cons, List.intercalate_cons_cons, ← List.map_cons,
      List.append_assoc, List.append_assoc, List.foldlM_append, hitem before state hstate,
      Option.bind_eq_bind, Option.bind_some, List.singleton_append, List.foldlM_cons, hnext,
      Option.bind_eq_bind, Option.bind_some, ih hitems hready, List.append_assoc]
    rfl

private theorem isParsed_array {items : List Json} (h : ∀ item ∈ items, item.IsParsed) :
    (array items).IsParsed := by
  intro state stack hstate
  rw [tokens, tokensOfItems_eq_map, enclosed, List.foldlM_cons, hstate.array]
  cases items with
  | nil => rfl
  | cons item items =>
    exact foldlM_enclosed ']' tokens (fun before state => Awaits state (.array before :: stack))
      (fun before => .behind (.array before :: stack)) (fun items => .behind stack (.array items))
      (fun before item => ⟨_, rfl, awaits_value _⟩) (fun before item => rfl)
      (fun item hitem before state hstate => h item hitem state _ hstate) (awaits_firstItem stack)

private theorem isParsed_object {fields : List (String × Json)}
    (h : ∀ field ∈ fields, field.2.IsParsed) :
    (object fields).IsParsed := by
  intro state stack hstate
  rw [tokens, tokensOfFields_eq_map, enclosed, List.foldlM_cons, hstate.object]
  cases fields with
  | nil => rfl
  | cons field fields =>
    have hfirst (name : String) :
        step (.firstField stack) (.atom (.text name)) = some (.colon stack [] name) := rfl
    refine foldlM_enclosed '\x7d' tokensOfField
      (fun before state =>
        ∀ name, step state (.atom (.text name)) = some (.colon stack before name))
      (fun before field => .behind (.object before field.1 :: stack) field.2)
      (fun fields => .behind stack (.object fields))
      (fun before field => ⟨_, rfl, fun _ => rfl⟩) (fun before field => rfl) ?_ hfirst
    intro field hfield before state hstate
    rw [tokensOfField, List.foldlM_cons, hstate]
    exact h field hfield (.value (.object before field.1 :: stack)) _ (awaits_value _)

/-- Every value parses from its tokens. -/
theorem isParsed (value : Json) : value.IsParsed := by
  refine tokens.induct IsParsed (fun fields => ∀ field ∈ fields, field.2.IsParsed)
    (fun items => ∀ item ∈ items, item.IsParsed) ?scalar ?array ?object ?noItems ?items ?noFields
    ?fields value
  case scalar =>
    intro value state stack hstate
    rw [tokens, List.foldlM_cons, hstate.atom]
    rfl
  case array => exact fun items => isParsed_array
  case object => exact fun fields => isParsed_object
  case noItems => exact List.forall_mem_nil _
  case items => exact fun item items hitem hitems => List.forall_mem_cons.mpr ⟨hitem, hitems⟩
  case noFields => exact List.forall_mem_nil _
  case fields =>
    exact fun name value fields hvalue hfields => List.forall_mem_cons.mpr ⟨hvalue, hfields⟩

/-- A token sequence parses to a value if and only if it is the value's. -/
theorem parse?_eq_some_iff {tokens : List Token} {value : Json} :
    parse? tokens = some value ↔ tokens = value.tokens := by
  rw [parse?, Option.bind_eq_some_iff]
  constructor
  · rintro ⟨state, hstate, hvalue⟩
    have hpassed := passed_foldlM hstate
    unfold State.value? at hvalue
    split at hvalue
    · obtain rfl := Option.some.inj hvalue
      exact hpassed.symm
    · cases hvalue
  · rintro rfl
    exact ⟨_, value.isParsed _ _ (awaits_value []), rfl⟩

/-- A text parses to a value if and only if it lexes to the value's tokens. -/
theorem read?_eq_some_iff {text : String} {value : Json} :
    read? text = some value ↔ lex text.toList = some value.tokens := by
  rw [read?, Option.bind_eq_some_iff]
  constructor
  · rintro ⟨tokens, hlex, hparse⟩
    rw [hlex, parse?_eq_some_iff.mp hparse]
  · exact fun hlex => ⟨_, hlex, parse?_eq_some_iff.mpr rfl⟩

end ClassAtlas.Json
