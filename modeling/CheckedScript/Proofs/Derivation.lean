import CheckedScript.Program.Grammar
import CheckedScript.Proofs.Pattern
import CheckedScript.Proofs.Result

/-!
Derivations: which tokens make up a statement, and which node they stand for, said without
patterns or scanning. Each form of statement has a relation between its tokens and its node, and
the readings of the grammar are shown to compute these relations on the tokens that their
patterns cover.

Main results:
* `importStatement_iff`: the reading of imports.
* `readDeclaration_eq`: where a declaration is cut.
-/

namespace CheckedScript

open Token (Kind)

namespace Grammar

/-! ## The forms of statements -/

def Semicolons (ts : List Token) : Prop := ∀ t ∈ ts, t.kind = .semicolon

/-- The tokens do not go on with a semicolon. -/
def Ended (ts : List Token) : Prop := ∀ t ∈ ts.head?, t.kind ≠ .semicolon

/-- The kinds that name a type. -/
inductive TypeKind : Kind → ValueType → Prop
  | string : TypeKind .stringType .string
  | stringArray : TypeKind .stringArrayType .stringArray

/-- `(',' | ';' | name ':'* type)*`, with the parameters that are named. -/
inductive Params : List Token → List Param → Prop
  | nil : Params [] []
  | separator {t : Token} {ts : List Token} {params : List Param}
      (kind : t.kind = .comma ∨ t.kind = .semicolon) (rest : Params ts params) :
      Params (t :: ts) params
  | param {name type : Token} {colons ts : List Token} {value : ValueType} {params : List Param}
      (name_kind : name.kind = .identifier) (colon_kind : ∀ t ∈ colons, t.kind = .colon)
      (type_kind : TypeKind type.kind value) (rest : Params ts params) :
      Params (name :: (colons ++ type :: ts)) (⟨name.text, value⟩ :: params)

/-- At most one type. -/
inductive ReturnType : List Token → Option ValueType → Prop
  | none : ReturnType [] none
  | some {t : Token} {value : ValueType} (kind : TypeKind t.kind value) :
      ReturnType [t] (some value)

/-- The arguments among the tokens between the brackets of a command. -/
def arguments (inside : List Token) : List String :=
  (inside.filter fun t => t.kind ≠ .comma ∧ t.kind ≠ .semicolon ∧ t.kind ≠ .comment).map (·.text)

/-- `import name (as alias)? ';'+` -/
inductive ImportStatement : List Token → Node → Prop
  | plain {keyword name : Token} {ends : List Token} (keyword_kind : keyword.kind = .importKeyword)
      (name_kind : name.kind = .identifier) (ends_ne : ends ≠ []) (ends_kind : Semicolons ends) :
      ImportStatement (keyword :: name :: ends) (.importing ⟨name.text, none, keyword.position⟩)
  | aliased {keyword name mark other : Token} {ends : List Token}
      (keyword_kind : keyword.kind = .importKeyword) (name_kind : name.kind = .identifier)
      (mark_kind : mark.kind = .asKeyword) (other_kind : other.kind = .identifier)
      (ends_ne : ends ≠ []) (ends_kind : Semicolons ends) :
      ImportStatement (keyword :: name :: mark :: other :: ends)
        (.importing ⟨name.text, some other.text, keyword.position⟩)

/-- `comment ';'*` -/
inductive CommentStatement : List Token → Node → Prop
  | intro {t : Token} {ends : List Token} (kind : t.kind = .comment)
      (ends_kind : Semicolons ends) : CommentStatement (t :: ends) (.comment t.text)

/-- `'$' name '[' inside ']' ';'*` -/
inductive InvocationStatement : List Token → Node → Prop
  | intro {mark name opener last : Token} {inside ends : List Token}
      (mark_kind : mark.kind = .execMarker) (name_kind : name.kind = .identifier)
      (opener_kind : opener.kind = .openSquare) (inside_kind : ∀ t ∈ inside, t.kind ≠ .closeSquare)
      (last_kind : last.kind = .closeSquare) (ends_kind : Semicolons ends) :
      InvocationStatement (mark :: name :: opener :: (inside ++ last :: ends))
        (.invocation ⟨name.text, arguments inside, name.position⟩)

/-- `name ':' '(' params ')' ':' type? '{' body '}' ';'*`, where `Body` gives the nodes that a
balanced body stands for. -/
inductive FunctionStatement (Body : List Token → List Node → Prop) : List Token → Node → Prop
  | intro {name colon paren close colon' opener last : Token}
      {inside types body ends : List Token} {params : List Param} {value : Option ValueType}
      {nodes : List Node}
      (name_kind : name.kind = .identifier) (colon_kind : colon.kind = .colon)
      (paren_kind : paren.kind = .openParen) (params_read : Params inside params)
      (close_kind : close.kind = .closeParen) (colon'_kind : colon'.kind = .colon)
      (type_read : ReturnType types value) (opener_kind : opener.kind = .openBrace)
      (balanced : Pattern.Balanced .openBrace .closeBrace (body.map (·.kind)))
      (body_read : Body body nodes) (last_kind : last.kind = .closeBrace)
      (ends_kind : Semicolons ends) :
      FunctionStatement Body
        (name :: colon :: paren :: (inside ++ close :: colon' :: (types ++ opener :: (body
          ++ last :: ends))))
        (.function ⟨name.text, params, value, name.position⟩ nodes)

/-- What may stand in a function body. -/
def InnerStatement (span : List Token) (node : Node) : Prop :=
  InvocationStatement span node ∨ CommentStatement span node

/-- What may stand at top level. -/
def OuterStatement (Body : List Token → List Node → Prop) (span : List Token) (node : Node) :
    Prop :=
  ImportStatement span node ∨ CommentStatement span node ∨ FunctionStatement Body span node

/-- Statements one after the other, with semicolons in between. -/
inductive Statements (Statement : List Token → Node → Prop) : List Token → List Node → Prop
  | nil : Statements Statement [] []
  | semicolon {t : Token} {ts : List Token} {nodes : List Node} (kind : t.kind = .semicolon)
      (rest : Statements Statement ts nodes) : Statements Statement (t :: ts) nodes
  | statement {span ts : List Token} {node : Node} {nodes : List Node}
      (first : Statement span node) (rest : Statements Statement ts nodes) :
      Statements Statement (span ++ ts) (node :: nodes)

/-- The nodes of a whole program: imports, comments and functions, whose bodies are
invocations and comments. -/
def Derives (ts : List Token) (nodes : List Node) : Prop :=
  Statements (OuterStatement (Statements InnerStatement)) ts nodes

/-! ## What the patterns cover -/

theorem semicolons_cons {t : Token} {ts : List Token} :
    Semicolons (t :: ts) ↔ t.kind = .semicolon ∧ Semicolons ts := by
  simp [Semicolons]

theorem semicolons_append {ts us : List Token} :
    Semicolons (ts ++ us) ↔ Semicolons ts ∧ Semicolons us := by
  simp only [Semicolons, List.mem_append]
  constructor
  · intro h
    exact ⟨fun t ht => h t (Or.inl ht), fun t ht => h t (Or.inr ht)⟩
  · rintro ⟨h1, h2⟩ t (ht | ht)
    · exact h1 t ht
    · exact h2 t ht

theorem map_kind_eq_pair {u : List Token} {a b : Kind} :
    u.map (·.kind) = [a, b] ↔ ∃ s t, u = [s, t] ∧ s.kind = a ∧ t.kind = b := by
  rcases u with _ | ⟨s, _ | ⟨t, _ | ⟨t', u⟩⟩⟩ <;> simp [and_assoc]

theorem map_kind_eq_triple {u : List Token} {a b c : Kind} :
    u.map (·.kind) = [a, b, c] ↔
      ∃ r s t, u = [r, s, t] ∧ r.kind = a ∧ s.kind = b ∧ t.kind = c := by
  rcases u with _ | ⟨r, _ | ⟨s, _ | ⟨t, _ | ⟨t', u⟩⟩⟩⟩ <;> simp [and_assoc]

theorem covers_terminators {span rest : List Token} :
    terminators.Covers span rest ↔ Semicolons span ∧ Ended rest := by
  have hp : (Pattern.exact [.semicolon]).matchLength = Pattern.matchOne (· = .semicolon) := by
    funext ts
    rw [Pattern.matchLength, Pattern.matchExact_singleton]
  rw [terminators, Pattern.covers_zeroOrMore_one hp]
  simp [Semicolons, Ended]

theorem covers_commentPattern {span rest : List Token} :
    commentPattern.Covers span rest ↔
      ∃ t ends, span = t :: ends ∧ t.kind = .comment ∧ Semicolons ends ∧ Ended rest := by
  simp only [commentPattern, Pattern.covers_sequence_cons, Pattern.covers_sequence_nil,
    Pattern.covers_exact, covers_terminators]
  constructor
  · rintro ⟨u, v, rfl, hu, w, x, rfl, hw, rfl⟩
    obtain ⟨t, rfl, ht⟩ := List.map_eq_singleton_iff.mp hu
    exact ⟨t, w, by simp, ht, hw.1, by simpa using hw.2⟩
  · rintro ⟨t, ends, rfl, ht, hends, hrest⟩
    exact ⟨[t], ends, rfl, by simp [ht], ends, [], by simp, ⟨hends, by simpa using hrest⟩, rfl⟩

/-- The pairs of `as` and a name are all there are: what follows them is a semicolon. -/
theorem covers_importPattern {span rest : List Token} :
    importPattern.Covers span rest ↔
      ∃ keyword name pairs ends k, span = keyword :: name :: (pairs ++ ends) ∧
        keyword.kind = .importKeyword ∧ name.kind = .identifier ∧
        pairs.map (·.kind) = (List.replicate k [Kind.asKeyword, .identifier]).flatten ∧
        ends ≠ [] ∧ Semicolons ends ∧ Ended rest := by
  simp only [importPattern, Pattern.covers_sequence_cons, Pattern.covers_sequence_nil,
    Pattern.covers_exact, covers_terminators, map_kind_eq_pair,
    Pattern.covers_zeroOrMore_exact (List.cons_ne_nil Kind.asKeyword [.identifier])]
  constructor
  · rintro ⟨_, _, rfl, ⟨keyword, name, rfl, hkeyword, hname⟩, pairs, _, rfl, ⟨⟨k, hpairs⟩, _⟩,
      v, _, rfl, hv, ends, _, rfl, ⟨hends, hrest⟩, rfl⟩
    obtain ⟨t, rfl, ht⟩ := List.map_eq_singleton_iff.mp hv
    exact ⟨keyword, name, pairs, t :: ends, k, by simp, hkeyword, hname, hpairs, by simp,
      semicolons_cons.mpr ⟨ht, hends⟩, by simpa using hrest⟩
  · rintro ⟨keyword, name, pairs, ends, k, rfl, hkeyword, hname, hpairs, hne, hends, hrest⟩
    obtain ⟨t, ends, rfl⟩ := List.exists_cons_of_ne_nil hne
    obtain ⟨ht, hends⟩ := semicolons_cons.mp hends
    refine ⟨[keyword, name], pairs ++ t :: ends, rfl, ⟨keyword, name, rfl, hkeyword, hname⟩,
      pairs, t :: ends, rfl, ⟨⟨k, hpairs⟩, by simp [ht]⟩, [t], ends, rfl, by simp [ht],
      ends, [], by simp, ⟨hends, by simpa using hrest⟩, rfl⟩

theorem covers_invocationPattern {span rest : List Token} :
    invocationPattern.Covers span rest ↔
      ∃ mark name opener inside last ends,
        span = mark :: name :: opener :: (inside ++ last :: ends) ∧ mark.kind = .execMarker ∧
        name.kind = .identifier ∧ opener.kind = .openSquare ∧
        (∀ t ∈ inside, t.kind ≠ .closeSquare) ∧ last.kind = .closeSquare ∧ Semicolons ends ∧
        Ended rest := by
  have hother : (Pattern.other .closeSquare).matchLength = Pattern.matchOne (· ≠ .closeSquare) := by
    funext ts
    rw [Pattern.matchLength]
  simp only [invocationPattern, Pattern.covers_sequence_cons, Pattern.covers_sequence_nil,
    Pattern.covers_exact, covers_terminators, map_kind_eq_triple,
    Pattern.covers_zeroOrMore_one hother]
  constructor
  · rintro ⟨_, _, rfl, ⟨mark, name, opener, rfl, hmark, hname, hopener⟩, inside, _, rfl,
      ⟨hinside, _⟩, v, _, rfl, hv, ends, _, rfl, ⟨hends, hrest⟩, rfl⟩
    obtain ⟨last, rfl, hlast⟩ := List.map_eq_singleton_iff.mp hv
    exact ⟨mark, name, opener, inside, last, ends, by simp, hmark, hname, hopener,
      by simpa using hinside, hlast, hends, by simpa using hrest⟩
  · rintro ⟨mark, name, opener, inside, last, ends, rfl, hmark, hname, hopener, hinside, hlast,
      hends, hrest⟩
    exact ⟨[mark, name, opener], inside ++ last :: ends, rfl,
      ⟨mark, name, opener, rfl, hmark, hname, hopener⟩, inside, last :: ends, rfl,
      ⟨by simpa using hinside, by simp [hlast]⟩, [last], ends, rfl, by simp [hlast],
      ends, [], by simp, ⟨hends, by simpa using hrest⟩, rfl⟩

theorem matchLength_oneOf_types :
    (Pattern.oneOf types).matchLength = Pattern.matchOne (types.contains ·) := by
  funext ts
  rw [Pattern.matchLength]

theorem contains_types_iff {kind : Kind} :
    types.contains kind = true ↔ ∃ value, TypeKind kind value := by
  constructor
  · intro h
    have : kind = .stringType ∨ kind = .stringArrayType := by simpa [types] using h
    rcases this with rfl | rfl
    · exact ⟨_, .string⟩
    · exact ⟨_, .stringArray⟩
  · rintro ⟨_, ⟨⟩ | ⟨⟩⟩ <;> decide

theorem covers_functionPattern {span rest : List Token} :
    functionPattern.Covers span rest ↔
      ∃ name colon paren inside close colon' declared opener body last ends,
        span = name :: colon :: paren :: (inside ++ close :: colon' :: (declared ++ opener :: (body
          ++ last :: ends))) ∧
        name.kind = .identifier ∧ colon.kind = .colon ∧ paren.kind = .openParen ∧
        (∀ t ∈ inside, t.kind ≠ .closeParen) ∧ close.kind = .closeParen ∧
        colon'.kind = .colon ∧ (∀ t ∈ declared, types.contains t.kind) ∧
        opener.kind = .openBrace ∧ Pattern.Balanced .openBrace .closeBrace (body.map (·.kind)) ∧
        last.kind = .closeBrace ∧ Semicolons ends ∧ Ended rest := by
  have hother : (Pattern.other .closeParen).matchLength = Pattern.matchOne (· ≠ .closeParen) := by
    funext ts
    rw [Pattern.matchLength]
  have hbraces : Kind.openBrace ≠ Kind.closeBrace := by decide
  simp only [functionPattern, Pattern.covers_sequence_cons, Pattern.covers_sequence_nil,
    Pattern.covers_exact, covers_terminators, map_kind_eq_pair, map_kind_eq_triple,
    Pattern.covers_zeroOrMore_one hother, Pattern.covers_zeroOrMore_one matchLength_oneOf_types,
    Pattern.covers_block hbraces]
  constructor
  · rintro ⟨_, _, rfl, ⟨name, colon, paren, rfl, hname, hcolon, hparen⟩, inside, _, rfl,
      ⟨hinside, _⟩, _, _, rfl, ⟨close, colon', rfl, hclose, hcolon'⟩, declared, _, rfl,
      ⟨hdeclared, _⟩, _, _, rfl, ⟨opener, body, last, rfl, hopener, hlast, hbody⟩, ends, _, rfl,
      ⟨hends, hrest⟩, rfl⟩
    exact ⟨name, colon, paren, inside, close, colon', declared, opener, body, last, ends,
      by simp, hname, hcolon, hparen, by simpa using hinside, hclose, hcolon', hdeclared, hopener,
      hbody, hlast, hends, by simpa using hrest⟩
  · rintro ⟨name, colon, paren, inside, close, colon', declared, opener, body, last, ends, rfl,
      hname, hcolon, hparen, hinside, hclose, hcolon', hdeclared, hopener, hbody, hlast, hends,
      hrest⟩
    exact ⟨[name, colon, paren], _, rfl, ⟨name, colon, paren, rfl, hname, hcolon, hparen⟩,
      inside, _, rfl, ⟨by simpa using hinside, by simp [hclose]⟩, [close, colon'], _, rfl,
      ⟨close, colon', rfl, hclose, hcolon'⟩, declared, _, rfl,
      ⟨hdeclared, by simp [hopener, types]⟩, opener :: (body ++ [last]), ends, by simp,
      ⟨opener, body, last, rfl, hopener, hlast, hbody⟩, ends, [], by simp,
      ⟨hends, by simpa using hrest⟩, rfl⟩

theorem covers_paramPattern {span rest : List Token} :
    paramPattern.Covers span rest ↔
      ∃ name colons type, span = name :: (colons ++ [type]) ∧ name.kind = .identifier ∧
        (∀ t ∈ colons, t.kind = .colon) ∧ types.contains type.kind := by
  have hcolon : (Pattern.exact [.colon]).matchLength = Pattern.matchOne (· = .colon) := by
    funext ts
    rw [Pattern.matchLength, Pattern.matchExact_singleton]
  simp only [paramPattern, Pattern.covers_sequence_cons, Pattern.covers_sequence_nil,
    Pattern.covers_exact, Pattern.covers_zeroOrMore_one hcolon,
    Pattern.covers_one matchLength_oneOf_types]
  constructor
  · rintro ⟨u, _, rfl, hu, colons, _, rfl, ⟨hcolons, _⟩, _, _, rfl, ⟨type, rfl, htype⟩, rfl⟩
    obtain ⟨name, rfl, hname⟩ := List.map_eq_singleton_iff.mp hu
    exact ⟨name, colons, type, by simp, hname, by simpa using hcolons, htype⟩
  · rintro ⟨name, colons, type, rfl, hname, hcolons, htype⟩
    have hnot : type.kind ≠ .colon := by
      intro h
      rw [h] at htype
      exact absurd htype (by decide)
    exact ⟨[name], colons ++ [type], rfl, by simp [hname], colons, [type], rfl,
      ⟨by simpa using hcolons, by simp [hnot]⟩, [type], [], rfl, ⟨type, rfl, htype⟩, rfl⟩

/-! ## What the readings make of it -/

theorem readType_eq_ok_iff {t : Token} {value : ValueType} :
    readType t = .ok value ↔ TypeKind t.kind value := by
  rw [readType]
  constructor
  · intro h
    split at h
    · next hkind => cases h; rw [hkind]; exact .string
    · next hkind => cases h; rw [hkind]; exact .stringArray
    · cases h
  · intro h
    generalize t.kind = kind at h
    cases h <;> rfl

theorem readReturnType_eq_ok_iff {name : String} {ts : List Token} {value : Option ValueType} :
    readReturnType name ts = .ok value ↔ ReturnType ts value := by
  rcases ts with _ | ⟨t, _ | ⟨extra, ts⟩⟩
  · constructor
    · intro h; cases h; exact .none
    · intro h; cases h; rfl
  · rw [readReturnType]
    constructor
    · intro h
      obtain ⟨v, hv, rfl⟩ := map_eq_ok_iff.mp h
      exact .some (readType_eq_ok_iff.mp hv)
    · intro h
      cases h with
      | some hkind => rw [readType_eq_ok_iff.mpr hkind]; rfl
  · constructor
    · intro h; cases h
    · intro h; cases h

theorem returnType_types {ts : List Token} {value : Option ValueType} (h : ReturnType ts value) :
    ∀ t ∈ ts, types.contains t.kind := by
  cases h with
  | none => simp
  | some hkind => simpa using contains_types_iff.mpr ⟨_, hkind⟩

theorem params_of_readParams {ts : List Token} {params : List Param}
    (h : readParams ts = .ok params) : Params ts params := by
  fun_induction readParams ts generalizing params with
  | case1 => cases h; exact .nil
  | case2 t ts n hn e he => cases h
  | case3 t ts n hn value hvalue ih =>
    obtain ⟨span, rest, hts, rfl, hspan⟩ := Pattern.matchLength_eq_some_iff.mp hn
    obtain ⟨name, colons, type, rfl, hname, hcolons, htype⟩ := covers_paramPattern.mp hspan
    rw [List.cons_append] at hts
    obtain ⟨rfl, rfl⟩ := List.cons.inj hts
    have hlen : (colons ++ [type]).length = (t :: (colons ++ [type])).length - 1 := by simp
    simp only [← hlen, List.take_left, List.drop_left] at hvalue h ih
    rw [List.getLast_cons (by simp), List.getLast_concat] at hvalue
    obtain ⟨others, hrest, rfl⟩ := map_eq_ok_iff.mp h
    rw [List.append_assoc]
    exact .param hname hcolons (readType_eq_ok_iff.mp hvalue) (ih hrest)
  | case4 t ts hnone hkind ih => exact .separator (Or.inl hkind) (ih h)
  | case5 t ts hnone hkind ih => exact .separator (Or.inr hkind) (ih h)
  | case6 => cases h

theorem readParams_of_params {ts : List Token} {params : List Param} (h : Params ts params) :
    readParams ts = .ok params := by
  induction h with
  | nil => rw [readParams]
  | @separator t ts params hkind rest ih =>
    have hnone : paramPattern.matchLength (t :: ts) = none := by
      have : t.kind ≠ .identifier := by rcases hkind with h | h <;> rw [h] <;> decide
      simp [paramPattern, Pattern.matchLength, Pattern.matchSequence, Pattern.matchExact, this]
    rw [readParams, hnone]
    rcases hkind with hkind | hkind <;> simp only [hkind, ih]
  | @param name type colons ts value params hname hcolons htype rest ih =>
    have hspan : paramPattern.Covers (name :: (colons ++ [type])) ts :=
      covers_paramPattern.mpr
        ⟨name, colons, type, rfl, hname, hcolons, contains_types_iff.mpr ⟨_, htype⟩⟩
    have hlen : (colons ++ [type]).length = (name :: (colons ++ [type])).length - 1 := by simp
    have hts : name :: (colons ++ type :: ts) = name :: (colons ++ [type]) ++ ts := by simp
    rw [hts, List.cons_append, readParams, ← List.cons_append, hspan]
    simp only [← hlen, List.take_left, List.drop_left]
    rw [List.getLast_cons (by simp), List.getLast_concat,
      readType_eq_ok_iff.mpr htype, ih]
    rfl

theorem readParams_eq_ok_iff {ts : List Token} {params : List Param} :
    readParams ts = .ok params ↔ Params ts params :=
  ⟨params_of_readParams, readParams_of_params⟩

theorem aliases_cons {t : Token} (ht : t.kind ≠ .asKeyword) (ts : List Token) :
    aliases (t :: ts) = aliases ts := by
  cases ts with
  | nil => rfl
  | cons b ts => rw [aliases, if_neg ht]

theorem aliases_pair {mark other : Token} (hmark : mark.kind = .asKeyword)
    (hother : other.kind = .identifier) (ts : List Token) :
    aliases (mark :: other :: ts) = other :: aliases ts := by
  rw [aliases, if_pos hmark, aliases_cons (by rw [hother]; decide)]

theorem aliases_semicolons {ts : List Token} (h : Semicolons ts) : aliases ts = [] := by
  induction ts with
  | nil => rfl
  | cons t ts ih =>
    obtain ⟨ht, hts⟩ := semicolons_cons.mp h
    rw [aliases_cons (by rw [ht]; decide), ih hts]

/-- A second alias is read as an error, although the pattern covers it. -/
theorem importStatement_iff {span rest : List Token} {node : Node} :
    importPattern.Covers span rest ∧ readImport span = .ok node ↔
      ImportStatement span node ∧ Ended rest := by
  rw [covers_importPattern]
  constructor
  · rintro ⟨⟨keyword, name, pairs, ends, k, rfl, hkeyword, hname, hpairs, hne, hends, hrest⟩,
      hread⟩
    refine ⟨?_, hrest⟩
    rw [readImport] at hread
    match k, hpairs with
    | 0, hpairs =>
      have : pairs = [] := by simpa using hpairs
      subst this
      rw [List.nil_append, aliases_semicolons hends] at hread
      cases hread
      exact .plain hkeyword hname hne hends
    | 1, hpairs =>
      obtain ⟨mark, other, rfl, hmark, hother⟩ := map_kind_eq_pair.mp hpairs
      rw [List.cons_append, List.cons_append, List.nil_append, aliases_pair hmark hother,
        aliases_semicolons hends] at hread
      cases hread
      exact .aliased hkeyword hname hmark hother hne hends
    | k + 2, hpairs =>
      -- The pattern covers any number of aliases, but the reading refuses the second.
      rw [List.replicate_succ, List.replicate_succ, List.flatten_cons, List.flatten_cons] at hpairs
      obtain ⟨u, v, rfl, hu, hv⟩ := List.map_eq_append_iff.mp hpairs
      obtain ⟨v, w, rfl, hv, hw⟩ := List.map_eq_append_iff.mp hv
      obtain ⟨mark, other, rfl, hmark, hother⟩ := map_kind_eq_pair.mp hu
      obtain ⟨mark', other', rfl, hmark', hother'⟩ := map_kind_eq_pair.mp hv
      simp only [List.cons_append, List.nil_append, aliases_pair hmark hother,
        aliases_pair hmark' hother'] at hread
      cases hread
  · rintro ⟨⟨hkeyword, hname, hne, hends⟩ | ⟨hkeyword, hname, hmark, hother, hne, hends⟩, hrest⟩
    · refine ⟨⟨_, _, [], _, 0, rfl, hkeyword, hname, rfl, hne, hends, hrest⟩, ?_⟩
      rw [readImport, aliases_semicolons hends]
    · refine ⟨⟨_, _, [_, _], _, 1, rfl, hkeyword, hname, by simp [hmark, hother], hne, hends,
        hrest⟩, ?_⟩
      rw [readImport, aliases_pair hmark hother, aliases_semicolons hends]

theorem commentStatement_iff {span rest : List Token} {node : Node} :
    commentPattern.Covers span rest ∧ readComment span = .ok node ↔
      CommentStatement span node ∧ Ended rest := by
  rw [covers_commentPattern]
  constructor
  · rintro ⟨⟨t, ends, rfl, ht, hends, hrest⟩, hread⟩
    cases hread
    exact ⟨.intro ht hends, hrest⟩
  · rintro ⟨⟨ht, hends⟩, hrest⟩
    exact ⟨⟨_, _, rfl, ht, hends, hrest⟩, rfl⟩

theorem readInvocation_eq {mark name opener last : Token} {inside ends : List Token}
    (hopener : opener.kind = .openSquare) (hinside : ∀ t ∈ inside, t.kind ≠ .closeSquare)
    (hlast : last.kind = .closeSquare) :
    readInvocation (mark :: name :: opener :: (inside ++ last :: ends)) =
      .ok (.invocation ⟨name.text, arguments inside, name.position⟩) := by
  have htake : (inside ++ last :: ends).takeWhile (fun t => t.kind ≠ .closeSquare) = inside := by
    rw [List.takeWhile_append_of_pos (by simpa using hinside)]
    simp [hlast]
  have hargs : inside.filter (fun t => !separatesArgs t.kind) =
      inside.filter fun t => t.kind ≠ .comma ∧ t.kind ≠ .semicolon ∧ t.kind ≠ .comment := by
    congr 1
    funext t
    cases t.kind <;> decide
  rw [readInvocation, List.tail_cons, readCommand, if_pos hopener]
  dsimp only
  rw [htake, hargs]
  rfl

theorem invocationStatement_iff {span rest : List Token} {node : Node} :
    invocationPattern.Covers span rest ∧ readInvocation span = .ok node ↔
      InvocationStatement span node ∧ Ended rest := by
  rw [covers_invocationPattern]
  constructor
  · rintro ⟨⟨mark, name, opener, inside, last, ends, rfl, hmark, hname, hopener, hinside, hlast,
      hends, hrest⟩, hread⟩
    rw [readInvocation_eq hopener hinside hlast] at hread
    cases hread
    exact ⟨.intro hmark hname hopener hinside hlast hends, hrest⟩
  · rintro ⟨⟨hmark, hname, hopener, hinside, hlast, hends⟩, hrest⟩
    exact ⟨⟨_, _, _, _, _, _, rfl, hmark, hname, hopener, hinside, hlast, hends, hrest⟩,
      readInvocation_eq hopener hinside hlast⟩

theorem slice?_middle (front middle back : List Token) :
    slice? (front ++ (middle ++ back)) front.length (middle.length + front.length) =
      some middle := by
  rw [slice?, if_pos (by simp only [List.length_append]; omega), Nat.add_comm,
    List.take_length_add_append, List.take_left, List.drop_left]

/-- A declaration is cut at its first closing parenthesis, the first brace behind it and the
closer of that brace. -/
theorem readDeclaration_eq {name colon paren close colon' opener last : Token}
    {inside declared body ends : List Token} (hname : name.kind = .identifier)
    (hcolon : colon.kind = .colon) (hparen : paren.kind = .openParen)
    (hinside : ∀ t ∈ inside, t.kind ≠ .closeParen) (hclose : close.kind = .closeParen)
    (hcolon' : colon'.kind = .colon) (hdeclared : ∀ t ∈ declared, types.contains t.kind)
    (hopener : opener.kind = .openBrace)
    (hbody : Pattern.Balanced .openBrace .closeBrace (body.map (·.kind)))
    (hlast : last.kind = .closeBrace) :
    readDeclaration (name :: colon :: paren :: (inside ++ close :: colon' :: (declared ++ opener
        :: (body ++ last :: ends)))) =
      (readParams inside).bind fun params =>
        (readReturnType name.text declared).bind fun value =>
          .ok ⟨⟨name.text, params, value, name.position⟩, opener, body⟩ := by
  -- The three cuts: the parenthesis, the brace behind it, and the closer of that brace.
  have hfind : (name :: colon :: paren :: (inside ++ close :: colon' :: (declared ++ opener
      :: (body ++ last :: ends)))).findIdx (fun t => t.kind = .closeParen) = inside.length + 3 := by
    have : inside.findIdx (fun t => t.kind = .closeParen) = inside.length :=
      List.findIdx_eq_length_of_false (by simpa using hinside)
    simp [List.findIdx_cons, List.findIdx_append, hname, hcolon, hparen, hclose, this]
  have hbrace : (close :: colon' :: (declared ++ opener :: (body ++ last :: ends))).findIdx
      (fun t => t.kind = .openBrace) = declared.length + 2 := by
    have : declared.findIdx (fun t => t.kind = .openBrace) = declared.length := by
      refine List.findIdx_eq_length_of_false fun t ht => decide_eq_false fun h => ?_
      have := hdeclared t ht
      rw [h] at this
      exact absurd this (by decide)
    simp [List.findIdx_cons, List.findIdx_append, hclose, hcolon', hopener, this]
  have hblock : Pattern.matchBlock .openBrace .closeBrace (opener :: (body ++ last :: ends)) =
      some (body.length + 2) := by
    have h : (Pattern.block .openBrace .closeBrace).Covers (opener :: (body ++ [last])) ends :=
      (Pattern.covers_block (by decide)).mpr ⟨opener, body, last, rfl, hopener, hlast, hbody⟩
    rw [Pattern.Covers, Pattern.matchLength] at h
    simpa using h
  have hparams := slice?_middle [name, colon, paren] inside
    (close :: colon' :: (declared ++ opener :: (body ++ last :: ends)))
  have htype := slice?_middle [close, colon'] declared (opener :: (body ++ last :: ends))
  have hbehind : (name :: colon :: paren :: (inside ++ close :: colon' :: (declared ++ opener
      :: (body ++ last :: ends)))).drop (inside.length + 3) =
        close :: colon' :: (declared ++ opener :: (body ++ last :: ends)) := by
    simp
  have hopen : (close :: colon' :: (declared ++ opener :: (body ++ last :: ends))).drop
      (declared.length + 2) = opener :: (body ++ last :: ends) := by
    simp
  have hlong : ¬ inside.length + 3 = (name :: colon :: paren :: (inside ++ close :: colon'
      :: (declared ++ opener :: (body ++ last :: ends)))).length := by
    simp only [List.length_cons, List.length_append]
    omega
  simp only [List.cons_append, List.nil_append, List.length_cons, List.length_nil] at hparams htype
  rw [readDeclaration]
  dsimp only
  rw [hfind, if_neg hlong, hparams, hbehind, hbrace, hopen, htype]
  simp only [hblock, Nat.add_sub_cancel, List.take_left]
  rfl

end Grammar

end CheckedScript
