import TypedConfig.Proofs.Origin
import TypedConfig.Proofs.Rules

/-!
Names lead to one place.  In a derived schema a name is a field or an extension of an object and
never both, and it is one of the names that the object lists or it is neither.  So a name is refused
only where it is not listed, and the refusal lists what is.
-/

namespace TypedConfig

namespace ObjectShape

variable {shape : ObjectShape} {name : String}

theorem field?_isSome_iff :
    (shape.field? name).isSome = true ↔ name ∈ shape.fields.map Entry.name := by
  simp [field?]

theorem extension?_isSome_iff :
    (shape.extension? name).isSome = true ↔ name ∈ shape.extensions.map Entry.name := by
  simp [extension?]

/-- A name that is listed once is a field or an extension, and not both. -/
theorem isSome_ne_of_mem (hnodup : shape.acceptedNames.Nodup) (h : name ∈ shape.acceptedNames) :
    (shape.field? name).isSome ≠ (shape.extension? name).isSome := by
  obtain ⟨-, -, hdisjoint⟩ := List.nodup_append.mp hnodup
  have hnotBoth : ¬(name ∈ shape.fields.map Entry.name ∧ name ∈ shape.extensions.map Entry.name) :=
    fun hboth => hdisjoint name hboth.1 name hboth.2 rfl
  rw [ne_eq, Bool.eq_iff_iff, field?_isSome_iff, extension?_isSome_iff]
  rcases List.mem_append.mp h with hfield | hextension
  · tauto
  · tauto

theorem eq_none_of_not_mem (h : name ∉ shape.acceptedNames) :
    shape.field? name = none ∧ shape.extension? name = none := by
  rw [acceptedNames, List.mem_append, not_or, ← field?_isSome_iff, ← extension?_isSome_iff] at h
  simpa using h

end ObjectShape

namespace Declarations

/-- A field of a dictionary that stands at the place of an object type has a name that is not among
those that the object type accepts: its fields in the order of their declaration, and the extension
names of its extensions behind them. -/
def Misnames (table : Declarations) (root : Ty) (tree : Node) (name : String)
    (accepted : List String) (position : Position) : Prop :=
  ∃ type object fields span field, table.Stands root tree type (.dictionary fields span) ∧
    type.core = .object object ∧ field ∈ fields ∧ field.name.name = name ∧
    position = field.name.span.position ∧ accepted = (table.object object).acceptedNames table ∧
    name ∉ accepted

/-- All dictionaries that stand at the places of object types have accepted names only.  What stands
at the place of an object type that declares nothing is no dictionary to it. -/
def AcceptsNames (table : Declarations) (root : Ty) (tree : Node) : Prop :=
  ∀ type object fields span, table.Stands root tree type (.dictionary fields span) →
    type.core = .object object → (table.object object).isEmpty = false →
      ∀ field ∈ fields, field.name.name ∈ (table.object object).acceptedNames table

end Declarations

section Documents

variable {table : Declarations} {root : Ty} {schema : Schema} {document : Document} {type : Ty}
  {name : String} {accepted : List String} {position : Position}

/-- Names are resolved by the walk along the schema, whatever the result is converted to. -/
theorem Document.bindValue_of_unknownField
    (h : document.bind schema type = .error (.unknownField name accepted position)) :
    document.bindValue schema = .error (.unknownField name accepted position) := by
  rcases bind_eq_error_iff.mp h with hvalue | ⟨value, -, hconvert⟩
  · exact hvalue
  · cases hresult : type.convert schema.table value <;> rw [hresult] at hconvert <;> cases hconvert

/-- A name is refused at the place of an object type, and where it is not accepted. -/
theorem Document.misnames_of_bind (h : Schema.derive table root = .ok schema)
    (hbind : document.bind schema type = .error (.unknownField name accepted position)) :
    table.Misnames root document.root name accepted position ∧
      ¬table.AcceptsNames root document.root := by
  have hroot : document.bind schema root = .error (.unknownField name accepted position) := by
    rw [Document.bind, Document.bindValue_of_unknownField hbind]
    rfl
  rw [Document.bind_eq_node h] at hroot
  cases Direct.node_origin .root hroot with
  | literal _ herror =>
      rcases Direct.literal_error herror with ⟨fault, hfault⟩ | ⟨given, -, hmismatch⟩
      · cases fault <;> cases hfault
      · cases hmismatch
  | @name type object fields span field hplace hcore hfull hfield hunknown =>
      have hunlisted := ObjectType.accepts?_eq_none_iff.mp hunknown
      refine ⟨⟨type, object, fields, span, field, hplace, hcore, hfield, rfl, rfl, rfl, hunlisted⟩, ?_⟩
      intro haccepts
      exact hunlisted (haccepts type object fields span hplace hcore hfull field hfield)

end Documents

/-- In a derived schema the names of an object are all different and those of its object type, every
one of them is a field or an extension and not both, and no other name is either.  So binding
refuses a name only where the object type at its place does not list it, and then lists what this
object type accepts; and it refuses none in a tree that uses accepted names only. -/
theorem Schema.derive_resolves {table : Declarations} {root : Ty} {schema : Schema}
    (h : Schema.derive table root = .ok schema) :
    (∀ (id : DescriptorId) (shape : ObjectShape), schema.descriptors[id]? = some (.object shape) →
      shape.acceptedNames.Nodup ∧
      shape.acceptedNames = (table.object shape.object).acceptedNames table ∧
      ∀ name, (name ∈ shape.acceptedNames →
          (shape.field? name).isSome ≠ (shape.extension? name).isSome) ∧
        (name ∉ shape.acceptedNames →
          shape.field? name = none ∧ shape.extension? name = none)) ∧
    ∀ (document : Document) (type : Ty),
      (∀ name accepted position,
        document.bind schema type = .error (.unknownField name accepted position) →
          table.Misnames root document.root name accepted position) ∧
      (table.AcceptsNames root document.root → ∀ name accepted position,
        document.bind schema type ≠ .error (.unknownField name accepted position)) := by
  refine ⟨fun id shape hshape => ?_, fun document type => ⟨?_, ?_⟩⟩
  · obtain ⟨rfl, hfaithful, -⟩ := Schema.derive_faithful h
    have hlisted : shape.Faithful schema.table schema.Describes := hfaithful id _ hshape
    exact ⟨hlisted.names, hlisted.acceptedNames_eq.symm, fun name =>
      ⟨ObjectShape.isSome_ne_of_mem hlisted.names, ObjectShape.eq_none_of_not_mem⟩⟩
  · intro name accepted position hbind
    exact (Document.misnames_of_bind h hbind).1
  · intro haccepts name accepted position hbind
    exact (Document.misnames_of_bind h hbind).2 haccepts

/-- A server with two fields and an extension. -/
def serverTable : Declarations :=
  ⟨[⟨"Server", none, [⟨"host", .scalar .string, false⟩, ⟨"port", .scalar .int, false⟩], 0,
      [.object 1]⟩,
    ⟨"Log", some "log", [⟨"level", .scalar .string, false⟩], 0, []⟩]⟩

/-- A server with a port under some name, at line 3 and column 5. -/
def serverWith (name : String) : Document :=
  ⟨[⟨⟨name, ⟨20, 24, 3, 5⟩⟩, .literal ⟨.integer, "80", ⟨26, 28, 3, 11⟩⟩, ⟨20, 28, 3, 5⟩⟩],
    ⟨0, 30, 1, 1⟩⟩

theorem serverWith_acceptsNames :
    serverTable.AcceptsNames (.object 0) (serverWith "port").root := by
  have hplaces : ∀ {type : Ty} {node : Node},
      serverTable.Stands (.object 0) (serverWith "port").root type node →
        (type = .object 0 ∧ node = (serverWith "port").root) ∨ ∃ leaf, node = .literal leaf := by
    intro type node h
    induction h with
    | root => exact .inl ⟨rfl, rfl⟩
    | field _ _ hfield _ ih =>
        rcases ih with ⟨-, hnode⟩ | ⟨leaf, hleaf⟩
        · cases hnode
          cases List.mem_singleton.mp hfield
          exact .inr ⟨_, rfl⟩
        · cases hleaf
    | member _ hcore _ ih =>
        rcases ih with ⟨rfl, -⟩ | ⟨leaf, hleaf⟩
        · cases hcore
        · cases hleaf
    | item _ _ _ ih =>
        rcases ih with ⟨-, hnode⟩ | ⟨leaf, hleaf⟩
        · cases hnode
        · cases hleaf
  intro type object fields span hplace hcore hfull field hfield
  rcases hplaces hplace with ⟨rfl, hnode⟩ | ⟨leaf, hleaf⟩
  · cases hcore
    cases hnode
    cases List.mem_singleton.mp hfield
    decide
  · cases hleaf

/-- A misspelled port is refused with the names that a server accepts, and a port is not refused. -/
theorem serverWith_resolves : ∃ schema,
    Schema.derive serverTable (.object 0) = .ok schema ∧
      (serverWith "prot").bind schema (.object 0)
        = .error (.unknownField "prot" ["host", "port", "log"] ⟨3, 5⟩) ∧
      serverTable.Misnames (.object 0) (serverWith "prot").root "prot" ["host", "port", "log"] ⟨3, 5⟩ ∧
      serverTable.AcceptsNames (.object 0) (serverWith "port").root ∧
      ∀ name accepted position, (serverWith "port").bind schema (.object 0)
        ≠ .error (.unknownField name accepted position) := by
  have hderive : Schema.derive serverTable (.object 0) = .ok _ := rfl
  obtain ⟨-, hbind⟩ := Schema.derive_resolves hderive
  exact ⟨_, hderive, rfl, (hbind (serverWith "prot") (.object 0)).1 _ _ _ rfl,
    serverWith_acceptsNames, (hbind (serverWith "port") (.object 0)).2 serverWith_acceptsNames⟩

end TypedConfig
