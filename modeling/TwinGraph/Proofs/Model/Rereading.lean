import TwinGraph.Proofs.Model.Building
import TwinGraph.Proofs.Model.Exactness
import TwinGraph.Proofs.Model.Revisiting

/-! Reading one stored document again. Its interface comes out as before when everything it refers
to is found again and the reusable schemas it uses are defined as before. -/
namespace TwinGraph

open Outcome Relation

inductive Schema.LooksUp (reusable : Text → Option Json) : Json → Text → Prop where
  | name {name : Text} (other : Primitive.ofName? name = none) :
      LooksUp reusable (.string name) name
  | through {name inner : Text} {definition : Json} (other : Primitive.ofName? name = none)
      (defined : reusable name = some definition) (within : LooksUp reusable definition inner) :
      LooksUp reusable (.string name) inner
  | field {fields : List (Text × Json)} {parts part value : Json} {inner : Text}
      (type : ((Json.object fields).stringField? "@type").getD [] = "Object".toList)
      (has : (Json.object fields).field? "fields" = some parts)
      (mem : part ∈ parts.items?.getD []) (schema : part.field? "schema" = some value)
      (within : LooksUp reusable value inner) : LooksUp reusable (.object fields) inner
  | element {fields : List (Text × Json)} {value : Json} {inner : Text}
      (type : ((Json.object fields).stringField? "@type").getD [] = "Array".toList)
      (has : (Json.object fields).field? "elementSchema" = some value)
      (within : LooksUp reusable value inner) : LooksUp reusable (.object fields) inner
  | value {fields : List (Text × Json)} {part value : Json} {inner : Text}
      (type : ((Json.object fields).stringField? "@type").getD [] = "Map".toList)
      (has : (Json.object fields).field? "mapValue" = some part)
      (schema : part.field? "schema" = some value)
      (within : LooksUp reusable value inner) : LooksUp reusable (.object fields) inner

theorem Schema.bind_requiredPart_congr {α : Type} {schemaType part : Text} {schema : Json}
    {f g : Json → Except ModelError α} (h : ∀ value, schema.field? part = some value → f value = g value) :
    (requiredPart schemaType part schema >>= f) = (requiredPart schemaType part schema >>= g) := by
  cases hp : requiredPart schemaType part schema with
  | error e => rfl
  | ok value => exact h value (requiredPart_eq_ok.mp hp)

/-- Reading a schema depends on the definitions of the names it looks up, and on no others. -/
theorem Schema.readWithin_congr {reusable reusable' : Text → Option Json} (levels : Nat)
    {value : Json}
    (h : ∀ name, LooksUp reusable value name → reusable' name = reusable name) :
    readWithin reusable' levels value = readWithin reusable levels value := by
  induction levels generalizing value with
  | zero => rfl
  | succ levels ih =>
    cases value with
    | string name =>
      unfold readWithin
      dsimp only
      cases hprimitive : Primitive.ofName? name with
      | some type => rfl
      | none =>
        dsimp only
        rw [h name (.name hprimitive)]
        cases hdefined : reusable name with
        | none => rfl
        | some definition => exact ih fun inner hl => h inner (.through hprimitive hdefined hl)
    | object fields =>
      unfold readWithin
      dsimp only
      split
      · rfl
      · split
        · next htype =>
          refine bind_requiredPart_congr fun parts hparts => ?_
          congr 1
          refine mapM_congr fun part hm => ?_
          split
          · rfl
          · split
            · rfl
            · next hs => rw [ih fun inner hl => h inner (.field htype hparts hm hs hl)]
        · split
          · next htype =>
            refine bind_requiredPart_congr fun element he => ?_
            rw [ih fun inner hl => h inner (.element htype he hl)]
          · split
            · next htype =>
              refine bind_requiredPart_congr fun part hp => ?_
              split
              · rfl
              · next hs => rw [ih fun inner hl => h inner (.value htype hp hs hl)]
            · rfl
    | _ => rfl

def Content.LooksUp (reusable : Text → Option Json) (entry : Json) (name : Text) : Prop :=
  ∃ word schema, (Document.typeNames entry).find? (fun type => kindWords.any (· == type)) = some word ∧
    (word = "Property".toList ∨ word = "Telemetry".toList) ∧
    entry.field? "schema" = some schema ∧ Schema.LooksUp reusable schema name

theorem Content.readSchema_congr {reusable reusable' : Text → Option Json}
    {interface word name : Text} {entry : Json}
    (h : ∀ schema, entry.field? "schema" = some schema → ∀ n, Schema.LooksUp reusable schema n →
      reusable' n = reusable n) :
    readSchema interface reusable' word name entry = readSchema interface reusable word name entry := by
  unfold readSchema
  split
  · next schema hs => exact Schema.readWithin_congr _ (h schema hs)
  · rfl

theorem Content.read_congr {reusable reusable' : Text → Option Json} {interface : Text} {entry : Json}
    (h : ∀ name, LooksUp reusable entry name → reusable' name = reusable name) :
    read interface reusable' entry = read interface reusable entry := by
  unfold read
  split
  · rfl
  · split
    · rfl
    · next word hword =>
      split
      · next hproperty =>
        rw [readSchema_congr fun schema hs n hl =>
          h n ⟨word, schema, hword, Or.inl hproperty, hs, hl⟩]
      · split
        · next htelemetry =>
          rw [readSchema_congr fun schema hs n hl =>
            h n ⟨word, schema, hword, Or.inr htelemetry, hs, hl⟩]
        · rfl

def Document.LooksUp (reusable : Text → Option Json) (document : Json) (name : Text) : Prop :=
  ∃ entry ∈ Document.contents document, Content.LooksUp reusable entry name

theorem Declaration.read_congr {reusable reusable' : Text → Option Json} {id : Text}
    {document : Json}
    (h : ∀ name, Document.LooksUp reusable document name → reusable' name = reusable name) :
    read reusable' id document = read reusable id document := by
  unfold read
  rw [mapM_congr fun entry hm => Content.read_congr fun name hl => h name ⟨entry, hm, hl⟩]

open Classical in
noncomputable def reachedFrom (known : Directory Json) (root : Json) : Directory Json :=
  known.restrict (Resolution.Reaches known (Document.id root))

theorem find?_reachedFrom {known : Directory Json} {root d : Json} {x : Text} :
    (reachedFrom known root).find? x = some d ↔
      Resolution.Reaches known (Document.id root) x ∧ known.find? x = some d := by
  classical
  exact Directory.find?_restrict

/-- Each name that is looked up while reading the reached documents has the same definition
among the reusable schemas of these documents alone. -/
def SchemasFoundAgain (known : Directory Json) (root : Json) : Prop :=
  ∀ x d name, (reachedFrom known root).find? x = some d →
    Document.LooksUp (reusableSchemas known).find? d name →
    (reusableSchemas (reachedFrom known root)).find? name = (reusableSchemas known).find? name

theorem extends_refers {known : Directory Json} {declared : Directory Declaration}
    (hread : readDeclarations known = .ok declared) (hmissing : Resolution.missing known = .ok [])
    {i parent : Text} (h : Interface.Extends declared i parent) :
    Resolution.Refers known i parent := by
  obtain ⟨d, hd, hp⟩ := h
  obtain ⟨document, refs, hdoc, hrefs, hparents, -⟩ := declared_references hread hmissing hd
  exact ⟨document, refs, hdoc, hrefs, hparents hp⟩

theorem readDeclarations_reached {known : Directory Json} {root : Json}
    {declared : Directory Declaration} (hread : readDeclarations known = .ok declared)
    (hschemas : SchemasFoundAgain known root) :
    ∃ declared', readDeclarations (reachedFrom known root) = .ok declared' ∧
      ∀ x, (reachedFrom known root).has x = true → declared'.find? x = declared.find? x := by
  have hsame : ∀ x document, (reachedFrom known root).find? x = some document →
      ∃ d, Declaration.read (reusableSchemas (reachedFrom known root)).find? x document = .ok d ∧
        declared.find? x = some d := by
    intro x document hdoc
    obtain ⟨d, hd, hfind⟩ := readDeclarations_reads hread (find?_reachedFrom.mp hdoc).2
    refine ⟨d, ?_, hfind⟩
    rw [Declaration.read_congr fun name hl => hschemas x document name hdoc hl]
    exact hd
  obtain ⟨declared', hread'⟩ := readDeclarations_ok fun x document hdoc =>
    (hsame x document hdoc).imp fun _ h => h.1
  refine ⟨declared', hread', fun x hx => ?_⟩
  obtain ⟨document, hdoc⟩ := Option.isSome_iff_exists.mp hx
  obtain ⟨d, hd, hfind⟩ := hsame x document hdoc
  obtain ⟨d', hd', hfind'⟩ := readDeclarations_reads hread' hdoc
  rw [hd] at hd'
  obtain rfl := Except.ok.inj hd'
  rw [hfind, hfind']

theorem buildAll_reached {known : Directory Json} {root : Json}
    {declared declared' : Directory Declaration} {interfaces : Directory Interface}
    (hread : readDeclarations known = .ok declared) (hmissing : Resolution.missing known = .ok [])
    (hread' : readDeclarations (reachedFrom known root) = .ok declared')
    (hsame : ∀ x, (reachedFrom known root).has x = true → declared'.find? x = declared.find? x)
    (hbuild : Interface.buildAll declared = .ok interfaces) :
    ∃ again, Interface.buildAll declared' = .ok again ∧
      ∀ x, (reachedFrom known root).has x = true → again.find? x = interfaces.find? x := by
  obtain ⟨hsound, hhas⟩ := Interface.buildAll_sound hbuild
  have hreached : ∀ x a, (reachedFrom known root).has x = true →
      Interface.Lineage declared x a → (reachedFrom known root).has a = true := by
    intro x a hx hline
    induction hline with
    | refl => exact hx
    | tail _ hparent ih =>
      obtain ⟨document, hdoc⟩ := Option.isSome_iff_exists.mp ih
      have href := extends_refers hread hmissing hparent
      obtain ⟨d, refs, hd, hrefs, hy⟩ := href
      have hknown := Resolution.missing_eq_nil hmissing hd hrefs hy
      obtain ⟨parent, hp⟩ := Option.isSome_iff_exists.mp hknown
      refine Option.isSome_iff_exists.mpr ⟨parent, find?_reachedFrom.mpr ⟨?_, hp⟩⟩
      exact (find?_reachedFrom.mp hdoc).1.tail ⟨d, refs, hd, hrefs, hy⟩
  have hflat : ∀ x, (reachedFrom known root).has x = true → ∃ interface,
      interfaces.find? x = some interface ∧ Interface.Flattens declared' x interface.contents := by
    intro x hx
    have hxd : declared.has x = true := by
      rw [readDeclarations_has hread]
      obtain ⟨document, hdoc⟩ := Option.isSome_iff_exists.mp hx
      exact Option.isSome_iff_exists.mpr ⟨document, (find?_reachedFrom.mp hdoc).2⟩
    obtain ⟨interface, hi⟩ := Option.isSome_iff_exists.mp ((hhas x).trans hxd)
    exact ⟨interface, hi, (hsound x interface hi).2.2.transfer fun a ha => hsame a (hreached x a hx ha)⟩
  obtain ⟨again, hagain⟩ := Interface.buildAll_ok_iff.mpr fun x hx => by
    obtain ⟨interface, -, hf⟩ := hflat x (readDeclarations_has hread' x ▸ hx)
    exact ⟨_, hf⟩
  obtain ⟨hsound', hhas'⟩ := Interface.buildAll_sound hagain
  refine ⟨again, hagain, fun x hx => ?_⟩
  obtain ⟨interface, hi, hf⟩ := hflat x hx
  obtain ⟨interface', hi'⟩ := Option.isSome_iff_exists.mp
    ((hhas' x).trans ((readDeclarations_has hread' x).trans hx))
  obtain ⟨hid, ⟨d, hd, hparents⟩, -⟩ := hsound x interface hi
  obtain ⟨hid', ⟨d', hd', hparents'⟩, hf'⟩ := hsound' x interface' hi'
  rw [hsame x hx, hd] at hd'
  obtain rfl := Option.some.inj hd'
  have hcontents := hf'.unique hf
  have heq : interface' = interface := by
    obtain ⟨_, _, _⟩ := interface
    obtain ⟨_, _, _⟩ := interface'
    simp only at hid hid' hparents hparents' hcontents
    rw [hid, hid', hparents, hparents', hcontents]
  rw [hi, hi', heq]

/-- A stored document that is read again gives the interface that it gave before. -/
theorem readInterfaces_again {σ : Type} {resolver : Resolver σ} {stored tops : List Json}
    {known : Directory Json} {root : Json} {holds : σ → Prop} {declared : Directory Declaration}
    {interfaces : Directory Interface} (htells : resolver.Tells stored holds)
    (h : Resolution.Registered stored tops known) (hroot : root ∈ tops)
    (hread : readDeclarations known = .ok declared)
    (hbuild : Interface.buildAll declared = .ok interfaces)
    (hagain : Resolution.FoundAgain stored known root) (hschemas : SchemasFoundAgain known root)
    {rounds : Nat} {s : σ} (hs : holds s) (hrounds : tops.length ≤ rounds + 1) :
    ∃ again s' interface, (readInterfaces rounds resolver [root]).run s = (.ok again, s') ∧
      holds s' ∧ interfaces.find? (Document.id root) = some interface ∧
      again.find? (Document.id root) = some interface := by
  obtain ⟨found, s', hcollect, hs', -, hfound⟩ :=
    Resolution.collect_again htells h hroot hagain hs hrounds
  have hreached : found = reachedFrom known root := by
    refine Directory.ext_find? fun x => Option.ext fun d => ?_
    exact (hfound x d).trans find?_reachedFrom.symm
  rw [hreached] at hcollect
  obtain ⟨declared', hread', hsame⟩ := readDeclarations_reached hread hschemas
  obtain ⟨again, hbuild', hsame'⟩ := buildAll_reached hread h.closed hread' hsame hbuild
  have hx : (reachedFrom known root).has (Document.id root) = true :=
    Option.isSome_iff_exists.mpr
      ⟨root, find?_reachedFrom.mpr ⟨.refl, h.find?_top hroot⟩⟩
  obtain ⟨interface, hi⟩ := Option.isSome_iff_exists.mp
    (((Interface.buildAll_sound hbuild').2 _).trans ((readDeclarations_has hread' _).trans hx))
  refine ⟨again, s', interface, ?_, hs', ?_, hi⟩
  · rw [readInterfaces_run hcollect hread', hbuild']
  · rw [← hsame' _ hx]
    exact hi

end TwinGraph
