/-
Module: Graft.Proofs.Lookup.Displayed
Purpose: Types that are meant as types that are written, and what those are resolved to again.
Main exports: Lookup.resolve_unplaced, Lookup.inner_resolve, TypeRef.toSyntax, Registry.displayType_eq,
  TypeRef.unwritten, TypeRef.unwritten_resolve_toSyntax_iff

The text of a type that is meant is the text of a written type, in which the full name of each definition
stands for it.  What that written type is resolved to depends on the full names only.
-/
import Graft.Lookup
import Graft.Registry.Display
import Graft.Proofs.Syntax.Formed
import Graft.Proofs.Syntax.Unplaced

namespace Graft

namespace TypeSegment

theorem name_unplaced (segment : TypeSegment) :
    (TypeSegment.unplaced segment).name.name = segment.name.name := by
  obtain ⟨name, args⟩ := segment
  rw [TypeSegment.unplaced]
  rfl

theorem args_unplaced (segment : TypeSegment) :
    (TypeSegment.unplaced segment).args = segment.args.map TypeSyntax.unplaced := by
  obtain ⟨name, args⟩ := segment
  rw [TypeSegment.unplaced, TypeSyntax.unplacedArgs_eq]

theorem length_args_unplaced (segment : TypeSegment) :
    (TypeSegment.unplaced segment).args.length = segment.args.length := by
  rw [args_unplaced, List.length_map]

theorem isEmpty_args_unplaced (segment : TypeSegment) :
    (TypeSegment.unplaced segment).args.isEmpty = segment.args.isEmpty := by
  rw [args_unplaced, List.isEmpty_map]

end TypeSegment

namespace Lookup

variable (r : Registry) (s : Scope)

/-! ### Resolution by parts -/

theorem resolveArgs_eq (args : List TypeSyntax) : resolveArgs r s args = args.map (resolve r s) := by
  induction args with
  | nil => rw [resolveArgs, List.map_nil]
  | cons arg rest ih => rw [resolveArgs, ih, List.map_cons]

theorem resolveSegments_eq (segments : List TypeSegment) :
    resolveSegments r s segments = (segments.flatMap (·.args)).map (resolve r s) := by
  induction segments with
  | nil => rw [resolveSegments, List.flatMap_nil, List.map_nil]
  | cons segment rest ih =>
      rw [resolveSegments, ih, List.flatMap_cons, List.map_append, resolveSegment, resolveArgs_eq]

theorem resolveElements_eq (elements : List (TupleElement TypeSyntax Ident)) :
    resolveElements r s elements =
      elements.map fun element => ⟨resolve r s element.type, element.name?.map (·.name)⟩ := by
  induction elements with
  | nil => rw [resolveElements, List.map_nil]
  | cons element rest ih => rw [resolveElements, ih, List.map_cons, resolveElement]

/-- A name is a type parameter, or stands for a definition with the arguments of all its segments. -/
theorem resolve_named (n : NamedType) : resolve r s (.named n) = match typeParam? r s n with
    | some name => .typeParam name
    | none =>
        .named (type r s n).toOption (written n) ((n.segments.flatMap (·.args)).map (resolve r s)) := by
  obtain ⟨alias?, segments, span⟩ := n
  rw [resolve, resolveNamed]
  cases typeParam? r s ⟨alias?, segments, span⟩ with
  | some name => rfl
  | none => exact congrArg (TypeRef.named _ _) (resolveSegments_eq r s segments)

/-- The types directly in what a type is resolved to are those directly in the type. -/
theorem inner_resolve (type : TypeSyntax) : (resolve r s type).inner = type.inner.map (resolve r s) := by
  cases type with
  | named n =>
      rw [resolve_named, TypeSyntax.inner]
      split
      · rename_i name hparam
        -- a type parameter has one segment, without arguments
        obtain ⟨alias?, segments, span⟩ := n
        unfold typeParam? at hparam
        split at hparam
        · rename_i heq
          cases heq
          rfl
        · cases hparam
      · rfl
  | predefined _ _ | array _ _ _ | nullable _ _ | pointer _ _ =>
      rw [resolve]
      rfl
  | tuple elements _ =>
      rw [resolve, resolveElements_eq, TypeRef.inner, TypeSyntax.inner, List.map_map, List.map_map]
      rfl

/-- A property of types that resolution brings about holds of all types in what a type is resolved to. -/
theorem every_resolve {P : TypeSyntax → Prop} {Q : TypeRef → Prop}
    (h : ∀ type, P type → Q (resolve r s type)) {type : TypeSyntax} (every : type.Every P) :
    (resolve r s type).Every Q := by
  induction type using TypeSyntax.induct with
  | step type ih =>
      obtain ⟨htype, hinner⟩ := TypeSyntax.every_iff.1 every
      refine TypeRef.every_iff.2 ⟨h type htype, ?_⟩
      rw [inner_resolve]
      exact List.forall_mem_map.2 fun part hpart => ih part hpart (hinner part hpart)

/-- What a type is resolved to is formed as the type is. -/
theorem formed_resolve {P : String → Prop} {type : TypeSyntax} (h : type.Formed P) :
    (resolve r s type).Formed P := by
  cases type with
  | named n =>
      rw [resolve_named]
      split <;> trivial
  | predefined _ _ | array _ _ _ | nullable _ _ | pointer _ _ =>
      rw [resolve]
      exact h
  | tuple elements _ =>
      rw [resolve, resolveElements_eq]
      refine ⟨fun hnil => h.1 (List.map_eq_nil_iff.1 hnil),
        List.forall_mem_map.2 fun element helement name hname => ?_⟩
      obtain ⟨ident, hident, rfl⟩ := Option.map_eq_some_iff.1 hname
      exact h.2 element helement ident hident

/-! ### Places do not count -/

theorem nested?_unplaced (key : TypeKey) (segments : List TypeSegment) :
    nested? r key (segments.map TypeSegment.unplaced) = nested? r key segments := by
  induction segments generalizing key with
  | nil => rfl
  | cons segment rest ih =>
      rw [List.map_cons, nested?, nested?, TypeSegment.name_unplaced, TypeSegment.length_args_unplaced]
      exact congrArg _ (funext ih)

theorem inSpace?_unplaced (space : NamespaceId) (segments : List TypeSegment) :
    inSpace? r space (segments.map TypeSegment.unplaced) = inSpace? r space segments := by
  induction segments generalizing space with
  | nil => rfl
  | cons segment rest ih =>
      rw [List.map_cons, inSpace?, inSpace?, TypeSegment.name_unplaced, TypeSegment.length_args_unplaced,
        TypeSegment.isEmpty_args_unplaced]
      simp only [nested?_unplaced, ih]

theorem unqualified_unplaced (segments : List TypeSegment) :
    unqualified r s (segments.map TypeSegment.unplaced) = unqualified r s segments := by
  cases segments with
  | nil => rfl
  | cons segment rest =>
      rw [List.map_cons, unqualified, unqualified, TypeSegment.name_unplaced,
        TypeSegment.length_args_unplaced, TypeSegment.isEmpty_args_unplaced, List.isEmpty_map, afterSpace?,
        afterSpace?]
      simp only [nested?_unplaced, inSpace?_unplaced]

variable {r s}

theorem type_unplaced (n : NamedType) : type r s (NamedType.unplaced n) = type r s n := by
  obtain ⟨qualifier?, segments, span⟩ := n
  rw [NamedType.unplaced_eq]
  cases qualifier? with
  | none => exact unqualified_unplaced r s segments
  | some qualifier =>
      rw [type, type, Option.map_some]
      simp only [inSpace?_unplaced]
      rfl

theorem typeParam?_unplaced (n : NamedType) : typeParam? r s (NamedType.unplaced n) = typeParam? r s n := by
  obtain ⟨qualifier?, segments, span⟩ := n
  rw [NamedType.unplaced_eq]
  rcases qualifier? with _ | qualifier
  · rcases segments with _ | ⟨⟨name, args⟩, rest⟩
    · rfl
    · rw [List.map_cons, TypeSegment.unplaced, TypeSyntax.unplacedArgs_eq]
      cases args <;> cases rest <;> rfl
  · rfl

theorem written_unplaced (n : NamedType) : written (NamedType.unplaced n) = written n := by
  obtain ⟨qualifier?, segments, span⟩ := n
  have hpath : (segments.map TypeSegment.unplaced).map (·.name.name) = segments.map (·.name.name) := by
    rw [List.map_map]
    exact List.map_congr_left fun segment _ => TypeSegment.name_unplaced segment
  rw [NamedType.unplaced_eq, written, written, Named.dotted, Named.dotted, Named.path, Named.path, hpath]
  cases qualifier? <;> rfl

/-- A type is resolved without regard to places. -/
theorem resolve_unplaced (type : TypeSyntax) : resolve r s type.unplaced = resolve r s type := by
  induction type using TypeSyntax.induct with
  | step type ih =>
      cases type with
      | predefined _ _ => rw [TypeSyntax.unplaced, resolve, resolve]
      | named n =>
          have hargs : ((NamedType.unplaced n).segments.flatMap (·.args)).map (resolve r s) =
              (n.segments.flatMap (·.args)).map (resolve r s) := by
            obtain ⟨qualifier?, segments, span⟩ := n
            rw [NamedType.unplaced_eq, List.flatMap_map, funext TypeSegment.args_unplaced,
              ← List.map_flatMap, List.map_map]
            exact List.map_congr_left ih
          rw [TypeSyntax.unplaced, resolve_named, resolve_named, typeParam?_unplaced, type_unplaced,
            written_unplaced, hargs]
      | array _ _ _ | nullable _ _ | pointer _ _ =>
          rw [TypeSyntax.unplaced, resolve, resolve, ih _ (List.mem_singleton_self _)]
      | tuple elements _ =>
          rw [TypeSyntax.unplaced, resolve, resolve, resolveElements_eq, resolveElements_eq,
            TypeSyntax.unplacedElements_eq, List.map_map]
          refine congrArg _ (List.map_congr_left fun element helement => ?_)
          have htype := ih element.type (List.mem_map_of_mem helement)
          obtain ⟨type, name?⟩ := element
          rw [Function.comp_apply, TypeSyntax.unplacedElement, htype, Option.map_map]
          rfl

end Lookup

/-! ### Texts -/

/-- A dotted name, with type arguments at its last segment. -/
def QualifiedName.typeSegments (n : QualifiedName) (args : List TypeSyntax) : List TypeSegment :=
  n.path.map (fun name => ⟨⟨name, .nowhere⟩, []⟩) ++ [⟨⟨n.name, .nowhere⟩, args⟩]

namespace TypeSyntax

theorem displaySegments_eq_intercalate (segments : List TypeSegment) :
    displaySegments segments = ".".intercalate (segments.map displaySegment) := by
  induction segments with
  | nil => rfl
  | cons segment rest ih =>
      cases rest with
      | nil => rw [displaySegments_singleton, List.map_singleton, String.intercalate_singleton]
      | cons _ _ =>
          rw [displaySegments_cons_cons, ih, List.map_cons, List.map_cons, List.map_cons,
            String.intercalate_cons_cons]

end TypeSyntax

/-- The last of several segments stands behind a separator. -/
theorem intercalate_concat (separator : String) {path : List String} (nonempty : path ≠ []) (name : String) :
    separator.intercalate (path ++ [name]) = separator.intercalate path ++ separator ++ name := by
  induction path with
  | nil => exact absurd rfl nonempty
  | cons first path ih =>
      cases path with
      | nil =>
          rw [List.singleton_append, String.intercalate_cons_cons, String.intercalate_singleton,
            String.intercalate_singleton]
      | cons next rest =>
          rw [List.cons_append, List.cons_append, String.intercalate_cons_cons, ← List.cons_append,
            ih (List.cons_ne_nil _ _), String.intercalate_cons_cons, String.append_assoc,
            String.append_assoc, String.append_assoc, String.append_assoc, String.append_assoc]

/-- Type arguments between angle brackets, if there are any. -/
def TypeSyntax.displayArgList : List TypeSyntax → String
  | [] => ""
  | arg :: args => "<" ++ displayArgs (arg :: args) ++ ">"

/-- The text of a name with type arguments is that of the name, with the arguments behind it. -/
theorem QualifiedName.display_typeSegments (n : QualifiedName) (args : List TypeSyntax) :
    TypeSyntax.displaySegments (n.typeSegments args) = n.display ++ TypeSyntax.displayArgList args := by
  have hlast : TypeSyntax.displaySegment ⟨⟨n.name, .nowhere⟩, args⟩ =
      n.name ++ TypeSyntax.displayArgList args := by
    cases args with
    | nil => rw [TypeSyntax.displaySegment, TypeSyntax.displayArgList, String.append_empty]
    | cons arg args =>
        rw [TypeSyntax.displaySegment, TypeSyntax.displayArgList, String.append_assoc, String.append_assoc,
          String.append_assoc]
  have hplain : (n.path.map fun name => (⟨⟨name, .nowhere⟩, []⟩ : TypeSegment)).map
      TypeSyntax.displaySegment = n.path := by
    rw [List.map_map]
    exact (List.map_congr_left fun name _ => TypeSyntax.displaySegment.eq_1 _).trans (List.map_id _)
  rw [TypeSyntax.displaySegments_eq_intercalate, typeSegments, List.map_append, hplain,
    List.map_singleton, hlast]
  unfold display
  cases hpath : n.path with
  | nil => exact String.intercalate_singleton
  | cons first rest =>
      rw [intercalate_concat _ (List.cons_ne_nil _ _), if_neg (by simp), pathText, hpath,
        String.append_assoc, String.append_assoc, String.append_assoc]

/-- The full name of a definition, or what was written if there is none. -/
def Registry.headName (r : Registry) (definition? : Option TypeKey) (written : String) : QualifiedName :=
  match definition?.bind r.get? with
  | some entry => entry.qualified
  | none => .global written

mutual

/-- A type that is meant, as it is written where nothing but full names is known. -/
def TypeRef.toSyntax (r : Registry) : TypeRef → TypeSyntax
  | .keyword name => .predefined name .nowhere
  | .typeParam name => .named ⟨none, (QualifiedName.global name).typeSegments [], .nowhere⟩
  | .named definition? written args =>
      .named ⟨none, (r.headName definition? written).typeSegments (TypeRef.toSyntaxArgs r args), .nowhere⟩
  | .array element rank => .array (element.toSyntax r) rank .nowhere
  | .nullable inner => .nullable (inner.toSyntax r) .nowhere
  | .pointer inner => .pointer (inner.toSyntax r) .nowhere
  | .tuple elements => .tuple (TypeRef.toSyntaxElements r elements) .nowhere

def TypeRef.toSyntaxArgs (r : Registry) : List TypeRef → List TypeSyntax
  | [] => []
  | arg :: rest => arg.toSyntax r :: TypeRef.toSyntaxArgs r rest

def TypeRef.toSyntaxElements (r : Registry) :
    List (TupleElement TypeRef String) → List (TupleElement TypeSyntax Ident)
  | [] => []
  | element :: rest => TypeRef.toSyntaxElement r element :: TypeRef.toSyntaxElements r rest

def TypeRef.toSyntaxElement (r : Registry) : TupleElement TypeRef String → TupleElement TypeSyntax Ident
  | ⟨type, name?⟩ => ⟨type.toSyntax r, name?.map (⟨·, .nowhere⟩)⟩

end

namespace TypeRef

variable (r : Registry)

theorem toSyntaxArgs_eq (args : List TypeRef) : toSyntaxArgs r args = args.map (TypeRef.toSyntax r) := by
  induction args with
  | nil => rw [toSyntaxArgs, List.map_nil]
  | cons arg rest ih => rw [toSyntaxArgs, ih, List.map_cons]

theorem toSyntaxElements_eq (elements : List (TupleElement TypeRef String)) :
    toSyntaxElements r elements = elements.map (toSyntaxElement r) := by
  induction elements with
  | nil => rw [toSyntaxElements, List.map_nil]
  | cons element rest ih => rw [toSyntaxElements, ih, List.map_cons]

/-- The types directly in a type that is written are those directly in the type that is meant. -/
theorem inner_toSyntax (type : TypeRef) : (type.toSyntax r).inner = type.inner.map (TypeRef.toSyntax r) := by
  cases type with
  | keyword _ | typeParam _ | array _ _ | nullable _ | pointer _ =>
      rw [TypeRef.toSyntax]
      rfl
  | named definition? written args =>
      rw [TypeRef.toSyntax, toSyntaxArgs_eq, TypeSyntax.inner, QualifiedName.typeSegments,
        List.flatMap_append, List.flatMap_singleton, List.flatMap_map]
      simp [inner]
  | tuple elements =>
      rw [TypeRef.toSyntax, toSyntaxElements_eq, TypeSyntax.inner, inner, List.map_map, List.map_map]
      refine List.map_congr_left fun element _ => ?_
      obtain ⟨type, name?⟩ := element
      rw [Function.comp_apply, toSyntaxElement]
      rfl

end TypeRef

namespace Registry

variable (r : Registry)

theorem displayTypes_eq {types : List TypeRef}
    (h : ∀ type ∈ types, r.displayType type = (type.toSyntax r).display) :
    r.displayTypes types = TypeSyntax.displayArgs (types.map (TypeRef.toSyntax r)) := by
  induction types with
  | nil => rw [displayTypes, List.map_nil, TypeSyntax.displayArgs]
  | cons type rest ih =>
      have hrest := ih fun other hother => h other (List.mem_cons_of_mem _ hother)
      have hfirst := h type List.mem_cons_self
      cases rest with
      | nil => rw [displayTypes, List.map_singleton, TypeSyntax.displayArgs_singleton, hfirst]
      | cons next rest =>
          rw [displayTypes, hfirst, hrest, List.map_cons, List.map_cons, List.map_cons,
            TypeSyntax.displayArgs_cons_cons]
          exact List.cons_ne_nil _ _

theorem displayElement_eq {element : TupleElement TypeRef String}
    (h : r.displayType element.type = (element.type.toSyntax r).display) :
    r.displayElement element = TypeSyntax.displayElement (TypeRef.toSyntaxElement r element) := by
  obtain ⟨type, name?⟩ := element
  rw [TypeRef.toSyntaxElement]
  cases name? with
  | none => rw [displayElement, Option.map_none, TypeSyntax.displayElement, h]
  | some name => rw [displayElement, Option.map_some, TypeSyntax.displayElement, h]

theorem displayElements_eq {elements : List (TupleElement TypeRef String)}
    (h : ∀ element ∈ elements, r.displayType element.type = (element.type.toSyntax r).display) :
    r.displayElements elements = TypeSyntax.displayElements (elements.map (TypeRef.toSyntaxElement r)) := by
  induction elements with
  | nil => rw [displayElements, List.map_nil, TypeSyntax.displayElements]
  | cons element rest ih =>
      have hrest := ih fun other hother => h other (List.mem_cons_of_mem _ hother)
      have hfirst := r.displayElement_eq (h element List.mem_cons_self)
      cases rest with
      | nil => rw [displayElements, List.map_singleton, TypeSyntax.displayElements, hfirst]
      | cons next rest =>
          rw [displayElements, hfirst, hrest, List.map_cons, List.map_cons, List.map_cons,
            TypeSyntax.displayElements_cons_cons]
          exact List.cons_ne_nil _ _

theorem displayHead_eq (definition? : Option TypeKey) (written : String) :
    r.displayHead definition? written = (r.headName definition? written).display := by
  rw [displayHead, headName]
  cases definition?.bind r.get? <;> rfl

/-- The text of a type that is meant is that of a type as it is written. -/
theorem displayType_eq (type : TypeRef) : r.displayType type = (type.toSyntax r).display := by
  induction type using TypeRef.induct with
  | step type ih =>
      cases type with
      | keyword name => rw [displayType, TypeRef.toSyntax, TypeSyntax.display]
      | typeParam name =>
          rw [displayType, TypeRef.toSyntax, TypeSyntax.display, NamedType.display,
            QualifiedName.display_typeSegments, TypeSyntax.displayArgList, String.append_empty]
          rfl
      | named definition? written args =>
          rw [TypeRef.toSyntax, TypeSyntax.display, NamedType.display, QualifiedName.display_typeSegments,
            TypeRef.toSyntaxArgs_eq]
          have hargs : r.displayTypes args = _ := r.displayTypes_eq ih
          cases args with
          | nil =>
              rw [displayType, displayHead_eq, List.map_nil, TypeSyntax.displayArgList, String.append_empty]
          | cons arg args =>
              rw [displayType, displayHead_eq, hargs, List.map_cons, TypeSyntax.displayArgList,
                String.append_assoc, String.append_assoc, String.append_assoc]
      | array element rank =>
          rw [displayType, TypeRef.toSyntax, TypeSyntax.display, ih element (List.mem_singleton_self _)]
      | nullable inner =>
          rw [displayType, TypeRef.toSyntax, TypeSyntax.display, ih inner (List.mem_singleton_self _)]
      | pointer inner =>
          rw [displayType, TypeRef.toSyntax, TypeSyntax.display, ih inner (List.mem_singleton_self _)]
      | tuple elements =>
          rw [displayType, TypeRef.toSyntax, TypeSyntax.display, TypeRef.toSyntaxElements_eq,
            r.displayElements_eq fun element helement => ih _ (List.mem_map_of_mem helement)]

end Registry

/-! ### Types that are read back -/

mutual

/-- A type that is meant without the names that it was written with. -/
def TypeRef.unwritten : TypeRef → TypeRef
  | .keyword name => .keyword name
  | .typeParam name => .typeParam name
  | .named definition? _ args => .named definition? "" (TypeRef.unwrittenArgs args)
  | .array element rank => .array element.unwritten rank
  | .nullable inner => .nullable inner.unwritten
  | .pointer inner => .pointer inner.unwritten
  | .tuple elements => .tuple (TypeRef.unwrittenElements elements)

def TypeRef.unwrittenArgs : List TypeRef → List TypeRef
  | [] => []
  | arg :: rest => arg.unwritten :: TypeRef.unwrittenArgs rest

def TypeRef.unwrittenElements : List (TupleElement TypeRef String) → List (TupleElement TypeRef String)
  | [] => []
  | element :: rest => TypeRef.unwrittenElement element :: TypeRef.unwrittenElements rest

def TypeRef.unwrittenElement : TupleElement TypeRef String → TupleElement TypeRef String
  | ⟨type, name?⟩ => ⟨type.unwritten, name?⟩

end

/-- The scope that sees the outermost namespace alone. -/
def Scope.outermost : Scope := .unit (.plain NamespaceTree.root)

namespace Lookup

variable {r : Registry}

theorem toOption_outcome (key? : Option TypeKey) : (outcome key?).toOption = key? := by
  cases key? <;> rfl

/-- A level without aliases and imports offers what its namespace has. -/
theorem atLevel_plain (space : NamespaceId) (name : String) (arity : Nat) :
    atLevel r (.plain space) name arity = outcome (r.findIn? space name arity) := by
  have haliased : aliased? (.plain space) name arity = none := by
    unfold aliased?
    split <;> rfl
  have hspace : (ScopeLevel.plain space).space = space := rfl
  rw [atLevel, haliased, hspace]
  cases r.findIn? space name arity <;> rfl

theorem simple_outermost (name : String) (arity : Nat) :
    simple r .outermost name arity = outcome (r.findIn? NamespaceTree.root name arity) := by
  change atLevels r name arity [.plain NamespaceTree.root] = _
  rw [atLevels, atLevel_plain]
  cases r.findIn? NamespaceTree.root name arity <;> rfl

/-- From outside all namespaces a name is looked for from the outermost one on. -/
theorem unqualified_outermost (segments : List TypeSegment) :
    unqualified r .outermost segments = outcome (inSpace? r NamespaceTree.root segments) := by
  cases segments with
  | nil => rfl
  | cons first rest =>
      have hafter : afterSpace? r .outermost first.name.name rest =
          (r.spaces.child? NamespaceTree.root first.name.name).bind (inSpace? r · rest) := by
        have hnone : Scope.outermost.spaceAlias? first.name.name = none := rfl
        rw [afterSpace?, hnone]
        exact List.findSome?_singleton
      rw [unqualified, simple_outermost, inSpace?]
      cases r.findIn? NamespaceTree.root first.name.name first.args.length with
      | some key => rfl
      | none =>
          simp only [outcome]
          rw [hafter]
          cases first.args.isEmpty <;> cases rest <;> simp [inSpace?]

theorem type_outermost {n : NamedType} (h : n.alias? = none) :
    type r .outermost n = outcome (inSpace? r NamespaceTree.root n.segments) := by
  rw [type, h]
  exact unqualified_outermost n.segments

theorem typeParam?_outermost (n : NamedType) : typeParam? r .outermost n = none := by
  unfold typeParam?
  split <;> rfl

end Lookup

namespace TypeRef

variable {r : Registry}

theorem unwrittenArgs_eq (args : List TypeRef) : unwrittenArgs args = args.map unwritten := by
  induction args with
  | nil => rw [unwrittenArgs, List.map_nil]
  | cons arg rest ih => rw [unwrittenArgs, ih, List.map_cons]

theorem unwrittenElements_eq (elements : List (TupleElement TypeRef String)) :
    unwrittenElements elements = elements.map unwrittenElement := by
  induction elements with
  | nil => rw [unwrittenElements, List.map_nil]
  | cons element rest ih => rw [unwrittenElements, ih, List.map_cons]

/-- A name is found by the full name of its definition. -/
def Found (r : Registry) : TypeRef → Prop
  | named definition? written args => Lookup.inSpace? r NamespaceTree.root
      ((r.headName definition? written).typeSegments (args.map (TypeRef.toSyntax r))) = definition?
  | typeParam _ => False
  | keyword _ | array _ _ | nullable _ | pointer _ | tuple _ => True

/-- A type as it is written where nothing but full names is known is resolved to the type that is meant
exactly if all names in it are found by the full names of their definitions. -/
theorem unwritten_resolve_toSyntax_iff (type : TypeRef) :
    (Lookup.resolve r .outermost (type.toSyntax r)).unwritten = type.unwritten ↔ type.Every (Found r) := by
  induction type using TypeRef.induct with
  | step type ih =>
      rw [every_iff]
      cases type with
      | keyword name => simp [TypeRef.toSyntax, Lookup.resolve, unwritten, Found, inner]
      | typeParam name =>
          rw [TypeRef.toSyntax, Lookup.resolve_named, Lookup.typeParam?_outermost]
          simp [unwritten, Found]
      | named definition? written args =>
          have hargs : (args.map fun arg => (Lookup.resolve r .outermost (arg.toSyntax r)).unwritten) =
              args.map unwritten ↔ ∀ arg ∈ args, arg.Every (Found r) := by
            rw [List.map_inj_left]
            exact forall₂_congr ih
          have hsegments :
              ((r.headName definition? written).typeSegments (args.map (TypeRef.toSyntax r))).flatMap
                (·.args) = args.map (TypeRef.toSyntax r) := by
            rw [← toSyntaxArgs_eq]
            exact (inner_toSyntax r (.named definition? written args)).trans (toSyntaxArgs_eq r args).symm
          rw [TypeRef.toSyntax, Lookup.resolve_named, Lookup.typeParam?_outermost, toSyntaxArgs_eq]
          dsimp only
          rw [unwritten, unwritten, Lookup.type_outermost rfl, Lookup.toOption_outcome, hsegments,
            unwrittenArgs_eq, unwrittenArgs_eq, List.map_map, List.map_map, named.injEq, inner, ← hargs]
          simp [Found, Function.comp_def]
      | array element rank =>
          have helement := ih element (List.mem_singleton_self _)
          simp [TypeRef.toSyntax, Lookup.resolve, unwritten, Found, inner, helement]
      | nullable inner =>
          have hinner := ih inner (List.mem_singleton_self _)
          simp [TypeRef.toSyntax, Lookup.resolve, unwritten, Found, TypeRef.inner, hinner]
      | pointer inner =>
          have hinner := ih inner (List.mem_singleton_self _)
          simp [TypeRef.toSyntax, Lookup.resolve, unwritten, Found, TypeRef.inner, hinner]
      | tuple elements =>
          have hresolved : ∀ element : TupleElement TypeRef String,
              unwrittenElement ⟨Lookup.resolve r .outermost (toSyntaxElement r element).type,
                (toSyntaxElement r element).name?.map (·.name)⟩ = unwrittenElement element ↔
              (Lookup.resolve r .outermost (element.type.toSyntax r)).unwritten =
              element.type.unwritten := by
            rintro ⟨type, name?⟩
            rw [toSyntaxElement, unwrittenElement, unwrittenElement, TupleElement.mk.injEq, Option.map_map]
            exact and_iff_left Option.map_id'
          rw [TypeRef.toSyntax, Lookup.resolve, unwritten, unwritten, Lookup.resolveElements_eq,
            toSyntaxElements_eq, unwrittenElements_eq, unwrittenElements_eq, List.map_map, List.map_map,
            tuple.injEq, List.map_inj_left]
          rw [Found, true_and, inner, List.forall_mem_map]
          exact forall₂_congr fun element helement =>
            (hresolved element).trans (ih element.type (List.mem_map_of_mem helement))

end TypeRef

end Graft
