-- SUMMARY: The answers of a session do not depend on earlier requests.
import MachInspect.Proofs.Session.Requests
import MachInspect.Proofs.View.Focus

/-!
# Transparent memory

What a session remembers is always what it would make again: this is `Consistent`, and every request
keeps it. So each request has one answer, whatever was asked before. The answers without memory
(`pageOf`, `tableOf`, `declarationOf`) say what that answer is.
-/
namespace MachInspect

open View Value

namespace Session

/-! ## Answers without memory -/

/-- The debug information that a session over an image works with. -/
def debugOf (image : Image) (options : Options) : Option Debug.Info :=
  if options.loadDebug then Debug.Info.of? image else none

def contextOf (image : Image) (options : Options) : Context :=
  ⟨SymbolIndex.build image, options.host, options.forceLongDouble⟩

def declarationOf (image : Image) (options : Options) (name : String) : Declaration :=
  match debugOf image options with
  | some info =>
    match info.variableType name with
    | .ok (some type) => .found type
    | .ok none => .absent
    | .error e => .broken e
  | none => .unavailable

/-- The page of a section that exists. -/
def sectionPageOf (image : Image) (options : Options) (home : Section) : Semantic → Page
  | .ehFrame => .frames (Frame.Listing.of (SymbolIndex.build image) home)
  | other => .rows (sectionView (contextOf image options) home other)

/-- The page that belongs to a key. -/
def pageOf (image : Image) (options : Options) : PageKey → Except Error Page
  | .ofSection number semantic =>
    match image.sectionAt? number.toUInt32 with
    | some home => .ok (sectionPageOf image options home semantic)
    | none => .error (.outOfRange .sections number)
  | .ofSymbol number semantic => do
    let place ← symbolPlace (contextOf image options) number
    let declaration :=
      if semantic = .declared then declarationOf image options place.symbol.name else .unavailable
    (symbolView (contextOf image options) number semantic declaration).map Page.rows

/-- The semantic type of a section's page. -/
def sectionSemanticOf (image : Image) (number : UInt64) (semantic? : Option Semantic) : Semantic :=
  match image.sectionAt? number.toUInt32 with
  | some home => semantic?.getD (Semantic.ofSection image home)
  | none => .data

/-- The page of a section, as it is asked for. -/
def sectionRequestOf (image : Image) (options : Options) (number : UInt64)
    (semantic? : Option Semantic) : Except Error Page :=
  pageOf image options (.ofSection number (sectionSemanticOf image number semantic?))

def symbolRequestOf (image : Image) (options : Options) (number : UInt64)
    (semantic? : Option Semantic) : Except Error Page :=
  pageOf image options (.ofSymbol number (Inspect.symbolSemantic image number semantic?))

/-- The page that an anchor leads to. -/
def anchorOf (image : Image) (options : Options) : Anchor → Except Error Page
  | .symbol index addend size =>
    match image.symbol? index.toUInt32 with
    | none => .error (.outOfRange .symbols index)
    | some symbol =>
      (symbolRequestOf image options index none).map
        (Page.focus ⟨displaced symbol.value addend, size⟩)
  | .address address size =>
    match (start image options).sectionContaining? address with
    | none => .error (.outOfRange .addresses address)
    | some number =>
      (sectionRequestOf image options (UInt64.ofNat number) none).map (Page.focus ⟨address, size⟩)

/-- The section with a number. -/
def sectionOf (image : Image) (number : UInt64) : Except Error Section :=
  match image.sectionAt? number.toUInt32 with
  | some home => .ok home
  | none => .error (.outOfRange .sections number)

/-- The relocation table of a symbol. -/
def tableOf (image : Image) (number : UInt64) : Except Error (List RelocColumns) :=
  match (SymbolIndex.build image).groupOf? number.toNat with
  | some g => .ok (image.groupRelocs g)
  | none => .error (.misuse (.symbolWithoutExtent number))

/-- The answer to a request. -/
def answerOf (image : Image) (options : Options) : Request → Except Error Answer
  | .sectionPage number semantic? => (sectionRequestOf image options number semantic?).map .page
  | .symbolPage number semantic? => (symbolRequestOf image options number semantic?).map .page
  | .openAnchor anchor => (anchorOf image options anchor).map .page
  | .sectionTable number => ((sectionOf image number).map image.sectionRelocs).map .table
  | .symbolTable number => (tableOf image number).map .table
  | .lookup address => .ok (.hit ((SymbolIndex.build image).lookup address))
  | .debugInfo => .ok (.debug (debugOf image options))
  | .variableType name =>
    match debugOf image options with
    | none => .ok .noDebug
    | some info => (info.variableType name).map .type

/-! ## Consistent sessions -/

/-- Everything that the session remembers is what it would make again. -/
structure Consistent (image : Image) (options : Options) (s : Session) : Prop where
  index_eq : s.index = SymbolIndex.build image
  options_eq : s.options = options
  debug : ∀ {info?}, s.debug = some info? → info? = Debug.Info.of? image
  types : ∀ {name type?}, s.types.lookup name = some type? →
    ∃ info, Debug.Info.of? image = some info ∧ info.variableType name = .ok type?
  pages : ∀ {key page}, s.pages.lookup key = some page → pageOf image options key = .ok page
  tables : ∀ {number table}, s.tables.lookup number = some table →
    tableOf image number = .ok table

theorem consistent_start (image : Image) (options : Options) :
    Consistent image options (start image options) where
  index_eq := rfl
  options_eq := rfl
  debug h := by cases h
  types h := by cases h
  pages h := by cases h
  tables h := by cases h

/-- What is found after adding a pair is the pair, or was there before. -/
theorem eq_or_of_lookup_cons {α β : Type} [DecidableEq α] {l : List (α × β)} {a a' : α} {b b' : β}
    (h : ((a, b) :: l).lookup a' = some b') : a' = a ∧ b = b' ∨ l.lookup a' = some b' := by
  rw [List.lookup_cons] at h
  by_cases hkey : a' = a
  · exact .inl ⟨hkey, by simpa [hkey] using h⟩
  · rw [beq_false_of_ne hkey] at h
    exact .inr h

namespace Consistent

variable {image : Image} {options : Options} {s : Session}

theorem image_eq (h : Consistent image options s) : s.image = image := by
  rw [Session.image, h.index_eq]
  rfl

theorem context_eq (h : Consistent image options s) : s.context = contextOf image options := by
  rw [Session.context, h.index_eq, h.options_eq]
  rfl

theorem setDebug (h : Consistent image options s) :
    Consistent image options { s with debug := some (Debug.Info.of? image) } :=
  { h with debug := fun hinfo => (Option.some.inj hinfo).symm }

theorem addType (h : Consistent image options s) {info : Debug.Info} {name : String}
    {type? : Option ValueType} (hinfo : Debug.Info.of? image = some info)
    (htype : info.variableType name = .ok type?) :
    Consistent image options { s with types := (name, type?) :: s.types } :=
  { h with
    types := fun hlookup => by
      rcases eq_or_of_lookup_cons hlookup with ⟨rfl, rfl⟩ | hlookup
      · exact ⟨info, hinfo, htype⟩
      · exact h.types hlookup }

theorem addPage (h : Consistent image options s) {key : PageKey} {page : Page}
    (hpage : pageOf image options key = .ok page) :
    Consistent image options { s with pages := (key, page) :: s.pages } :=
  { h with
    pages := fun hlookup => by
      rcases eq_or_of_lookup_cons hlookup with ⟨rfl, rfl⟩ | hlookup
      · exact hpage
      · exact h.pages hlookup }

theorem addTable (h : Consistent image options s) {number : UInt64} {table : List RelocColumns}
    (htable : tableOf image number = .ok table) :
    Consistent image options { s with tables := (number, table) :: s.tables } :=
  { h with
    tables := fun hlookup => by
      rcases eq_or_of_lookup_cons hlookup with ⟨rfl, rfl⟩ | hlookup
      · exact htable
      · exact h.tables hlookup }

end Consistent

/-! ## Requests with a settled answer -/

/-- In this session the request has this answer, and it leaves a consistent session. -/
structure Gives {α : Type} (image : Image) (options : Options) (s : Session) (m : Inspect α)
    (answer : Except Error α) : Prop where
  answer_eq : (exec m s).1 = answer
  consistent : Consistent image options (exec m s).2

/-- The request has this answer in every consistent session, and keeps the session consistent. -/
def Settled {α : Type} (image : Image) (options : Options) (m : Inspect α)
    (answer : Except Error α) : Prop :=
  ∀ s, Consistent image options s → Gives image options s m answer

section Rules

variable {α β : Type} {image : Image} {options : Options}

theorem Settled.pure (a : α) : Settled image options (pure a) (.ok a) :=
  fun _ hs => ⟨rfl, hs⟩

theorem Settled.bind_ok {m : Inspect α} {f : α → Inspect β} {a : α} {answer : Except Error β}
    (hm : Settled image options m (.ok a)) (hf : Settled image options (f a) answer) :
    Settled image options (m >>= f) answer := by
  intro s hs
  obtain ⟨hanswer, hconsistent⟩ := hm s hs
  have hexec : exec m s = (.ok a, (exec m s).2) := Prod.ext hanswer rfl
  have hbind := exec_bind_ok hexec f
  obtain ⟨hanswer', hconsistent'⟩ := hf _ hconsistent
  exact ⟨by rw [hbind, hanswer'], by rw [hbind]; exact hconsistent'⟩

theorem Settled.bind_error {m : Inspect α} {f : α → Inspect β} {e : Error}
    (hm : Settled image options m (.error e)) : Settled image options (m >>= f) (.error e) := by
  intro s hs
  obtain ⟨hanswer, hconsistent⟩ := hm s hs
  have hexec : exec m s = (.error e, (exec m s).2) := Prod.ext hanswer rfl
  have hbind := exec_bind_error hexec f
  exact ⟨by rw [hbind], by rw [hbind]; exact hconsistent⟩

theorem Settled.bind {m : Inspect α} {f : α → Inspect β} {x : Except Error α}
    {g : α → Except Error β} (hm : Settled image options m x)
    (hf : ∀ a, x = .ok a → Settled image options (f a) (g a)) :
    Settled image options (m >>= f) (x >>= g) := by
  cases x with
  | error e => exact hm.bind_error
  | ok a => exact hm.bind_ok (hf a rfl)

theorem Settled.map {m : Inspect α} {x : Except Error α} (f : α → β)
    (hm : Settled image options m x) :
    Settled image options (m >>= fun a => Pure.pure (f a)) (x.map f) := by
  cases x with
  | error e => exact hm.bind_error
  | ok a => exact hm.bind_ok (Settled.pure _)

theorem Settled.discard {m : Inspect α} {a : α} (hm : Settled image options m (.ok a)) :
    Settled image options (discard m) (.ok ⟨⟩) := by
  have hbind : Settled image options (m >>= fun _ => Pure.pure PUnit.unit) (.ok ⟨⟩) :=
    hm.bind_ok (Settled.pure _)
  exact hbind

theorem Settled.lift (x : Except Error α) : Settled image options (liftM x : Inspect α) x :=
  fun _ hs => ⟨by simp, by simpa using hs⟩

theorem Settled.tryCatch {m : Inspect α} {handle : Error → Inspect α} {x : Except Error α}
    {h : Error → Except Error α} (hm : Settled image options m x)
    (hhandle : ∀ e, Settled image options (handle e) (h e)) :
    Settled image options (tryCatch m handle) (tryCatch x h) := by
  intro s hs
  obtain ⟨hanswer, hconsistent⟩ := hm s hs
  have hexec : exec m s = (x, (exec m s).2) := Prod.ext hanswer rfl
  cases x with
  | ok a =>
    have hcatch : exec (MonadExcept.tryCatch m handle) s = (.ok a, (exec m s).2) := by
      rw [exec_tryCatch, hexec]
    exact ⟨by rw [hcatch]; rfl, by rw [hcatch]; exact hconsistent⟩
  | error e =>
    have hcatch : exec (MonadExcept.tryCatch m handle) s = exec (handle e) (exec m s).2 := by
      rw [exec_tryCatch, hexec]
    obtain ⟨hanswer', hconsistent'⟩ := hhandle e _ hconsistent
    exact ⟨by rw [hcatch, hanswer']; rfl, by rw [hcatch]; exact hconsistent'⟩

/-- What is remembered after a success does not change the answer. -/
theorem Settled.remember {m : Inspect α} {x : Except Error α} {add : α → Session → Session}
    (hm : Settled image options m x)
    (hadd : ∀ a s, x = .ok a → Consistent image options s → Consistent image options (add a s)) :
    Settled image options (m >>= fun a => modify (add a) >>= fun _ => Pure.pure a) x := by
  have hbind := hm.bind (f := fun a => modify (add a) >>= fun _ => Pure.pure a) (g := .ok)
    fun a ha _ hs => ⟨rfl, hadd a _ ha hs⟩
  cases x <;> exact hbind

/-- A request that looks at the session first. -/
theorem Settled.look {f : Session → Inspect α} {answer : Except Error α}
    (hf : ∀ s, Consistent image options s → Gives image options s (f s) answer) :
    Settled image options (get >>= f) answer := by
  intro s hs
  obtain ⟨hanswer, hconsistent⟩ := hf s hs
  have hbind := exec_bind_ok (exec_get s) f
  exact ⟨by rw [hbind, hanswer], by rw [hbind]; exact hconsistent⟩

end Rules

/-! ## Settled requests -/

section Requests

variable {image : Image} {options : Options}

theorem settled_debugInfo :
    Settled image options Inspect.debugInfo (.ok (debugOf image options)) := by
  refine Settled.look fun s hs => ?_
  obtain rfl := hs.options_eq
  unfold debugOf
  by_cases hload : s.options.loadDebug = true
  · rw [if_pos hload, if_pos hload]
    cases hdebug : s.debug with
    | some info? => exact ⟨by rw [← hs.debug hdebug]; rfl, hs⟩
    | none =>
      rw [hs.image_eq]
      exact ⟨rfl, hs.setDebug⟩
  · rw [if_neg hload, if_neg hload]
    exact ⟨rfl, hs⟩

theorem settled_variableType {info : Debug.Info} (hinfo : Debug.Info.of? image = some info)
    (name : String) :
    Settled image options (Inspect.variableType info name) (info.variableType name) := by
  refine Settled.look fun s hs => ?_
  cases hlookup : s.types.lookup name with
  | some type? =>
    obtain ⟨info', hinfo', htype⟩ := hs.types hlookup
    obtain rfl : info = info' := Option.some.inj (hinfo.symm.trans hinfo')
    exact ⟨htype.symm, hs⟩
  | none => exact (Settled.lift _).remember (fun _ _ htype hs => hs.addType hinfo htype) s hs

/-- A remembered page is the one that would be made. -/
theorem settled_remembered {key : PageKey} {make : Inspect Page}
    (hmake : Settled image options make (pageOf image options key)) :
    Settled image options (Inspect.remembered key make) (pageOf image options key) := by
  refine Settled.look fun s hs => ?_
  cases hlookup : s.pages.lookup key with
  | some page => exact ⟨(hs.pages hlookup).symm, hs⟩
  | none => exact hmake.remember (fun _ _ hpage hs => hs.addPage hpage) s hs

theorem debugOf_eq_some {info : Debug.Info} (h : debugOf image options = some info) :
    Debug.Info.of? image = some info := by
  unfold debugOf at h
  split at h
  · exact h
  · cases h

/-- Trouble with a declared type is part of the answer, not a failure. -/
theorem settled_declaration (name : String) :
    Settled image options (Inspect.declaration name (debugOf image options))
      (.ok (declarationOf image options name)) := by
  unfold declarationOf
  cases hdebug : debugOf image options with
  | none => exact Settled.pure _
  | some info =>
    have hfind : Settled image options (Inspect.variableType info name) (info.variableType name) :=
      settled_variableType (debugOf_eq_some hdebug) name
    have hbroken (e : Error) : Settled image options (pure (Declaration.broken e))
        (.ok (Declaration.broken e)) := Settled.pure _
    dsimp only
    cases hvariable : info.variableType name with
    | error e =>
      rw [hvariable] at hfind
      exact hfind.bind_error.tryCatch hbroken
    | ok type? =>
      rw [hvariable] at hfind
      cases type? with
      | some type =>
        refine Settled.tryCatch (x := .ok (Declaration.found type)) (hfind.bind_ok ?_) hbroken
        exact Settled.pure _
      | none =>
        refine Settled.tryCatch (x := .ok Declaration.absent) (hfind.bind_ok ?_) hbroken
        exact Settled.pure _

theorem settled_sectionAt (number : UInt64) :
    Settled image options (Inspect.sectionAt number) (sectionOf image number) := by
  refine Settled.look fun s hs => ?_
  rw [hs.image_eq, sectionOf]
  cases image.sectionAt? number.toUInt32 with
  | some home => exact ⟨rfl, hs⟩
  | none => exact ⟨rfl, hs⟩

theorem settled_sectionPage (number : UInt64) (semantic? : Option Semantic) :
    Settled image options (Inspect.sectionPage number semantic?)
      (sectionRequestOf image options number semantic?) := by
  have hat : Settled image options (Inspect.sectionAt number) _ := settled_sectionAt number
  unfold sectionOf at hat
  unfold sectionRequestOf sectionSemanticOf
  cases hhome : image.sectionAt? number.toUInt32 with
  | none =>
    rw [hhome] at hat
    simp only [pageOf, hhome]
    exact hat.bind_error
  | some home =>
    rw [hhome] at hat
    refine hat.bind_ok (Settled.look fun s hs => ?_)
    rw [hs.image_eq]
    refine settled_remembered (Settled.look fun s hs => ?_) s hs
    rw [hs.index_eq, hs.context_eq]
    simp only [pageOf, hhome]
    -- Asking for declared types reads the debug information, but the page does not use it.
    cases semantic?.getD (Semantic.ofSection image home) with
    | declared =>
      have hpage : Settled image options (pure (sectionPageOf image options home .declared)) _ :=
        Settled.pure _
      exact settled_debugInfo.discard.bind_ok hpage s hs
    | _ => exact ⟨rfl, hs⟩

theorem settled_symbolPage (number : UInt64) (semantic? : Option Semantic) :
    Settled image options (Inspect.symbolPage number semantic?)
      (symbolRequestOf image options number semantic?) := by
  refine Settled.look fun s hs => ?_
  rw [hs.image_eq]
  refine settled_remembered ?_ s hs
  generalize Inspect.symbolSemantic image number semantic? = semantic
  have hview (declaration : Declaration) : Settled image options
      (do return .rows (← symbolView (contextOf image options) number semantic declaration))
      ((symbolView (contextOf image options) number semantic declaration).map Page.rows) :=
    (Settled.lift _).map Page.rows
  unfold pageOf
  by_cases hsemantic : semantic = .declared
  · simp only [if_pos hsemantic]
    refine settled_debugInfo.bind_ok (Settled.look fun s hs => ?_)
    rw [hs.context_eq]
    refine (Settled.lift _).bind (fun place _ => ?_) s hs
    exact (settled_declaration place.symbol.name).bind_ok (hview _)
  · simp only [if_neg hsemantic]
    refine (Settled.pure none).bind_ok (Settled.look fun s hs => ?_)
    rw [hs.context_eq]
    refine (Settled.lift _).bind (fun place _ => ?_) s hs
    exact (Settled.pure Declaration.unavailable).bind_ok (hview _)

theorem settled_openAnchor (anchor : Anchor) :
    Settled image options (Inspect.openAnchor anchor) (anchorOf image options anchor) := by
  cases anchor with
  | symbol index addend size =>
    refine Settled.look fun s hs => ?_
    rw [hs.image_eq, anchorOf]
    cases image.symbol? index.toUInt32 with
    | none => exact ⟨rfl, hs⟩
    | some symbol => exact ((settled_symbolPage index none).map _) s hs
  | address address size =>
    refine Settled.look fun s hs => ?_
    have hcontaining : s.sectionContaining? address
        = (start image options).sectionContaining? address := by
      rw [sectionContaining?, hs.image_eq]
      rfl
    rw [hcontaining, anchorOf]
    cases (start image options).sectionContaining? address with
    | none => exact ⟨rfl, hs⟩
    | some number => exact ((settled_sectionPage _ none).map _) s hs

theorem settled_sectionTable (number : UInt64) :
    Settled image options (Inspect.sectionTable number)
      ((sectionOf image number).map image.sectionRelocs) := by
  have hat : Settled image options (Inspect.sectionAt number) _ := settled_sectionAt number
  cases hhome : sectionOf image number with
  | error e =>
    rw [hhome] at hat
    exact hat.bind_error
  | ok home =>
    rw [hhome] at hat
    refine hat.bind_ok (Settled.look fun s hs => ?_)
    rw [hs.image_eq]
    exact ⟨rfl, hs⟩

theorem settled_symbolTable (number : UInt64) :
    Settled image options (Inspect.symbolTable number) (tableOf image number) := by
  refine Settled.look fun s hs => ?_
  cases hlookup : s.tables.lookup number with
  | some table => exact ⟨(hs.tables hlookup).symm, hs⟩
  | none =>
    rw [hs.image_eq]
    cases hgroup : s.index.groupOf? number.toNat with
    | none => exact ⟨by rw [tableOf, ← hs.index_eq, hgroup]; rfl, hs⟩
    | some g =>
      have htable : tableOf image number = .ok (image.groupRelocs g) := by
        rw [tableOf, ← hs.index_eq, hgroup]
      exact ⟨htable.symm, hs.addTable htable⟩

/-- Every request has its answer. -/
theorem settled_ask (r : Request) : Settled image options r.ask (answerOf image options r) := by
  cases r with
  | sectionPage number semantic? => exact (settled_sectionPage number semantic?).map _
  | symbolPage number semantic? => exact (settled_symbolPage number semantic?).map _
  | openAnchor anchor => exact (settled_openAnchor anchor).map _
  | sectionTable number => exact (settled_sectionTable number).map _
  | symbolTable number => exact (settled_symbolTable number).map _
  | lookup address =>
    refine Settled.look fun s hs => ?_
    rw [hs.index_eq]
    exact ⟨rfl, hs⟩
  | debugInfo => exact settled_debugInfo.map _
  | variableType name =>
    refine settled_debugInfo.bind_ok ?_
    unfold answerOf
    cases hdebug : debugOf image options with
    | none => exact Settled.pure _
    | some info => exact (settled_variableType (debugOf_eq_some hdebug) name).map _

end Requests

/-! ## Runs -/

section Runs

variable {image : Image} {options : Options} {s : Session}

theorem Consistent.run (h : Consistent image options s) (r : Request) :
    Consistent image options (r.run s).2 :=
  (settled_ask r s h).consistent

theorem Consistent.after (h : Consistent image options s) (requests : List Request) :
    Consistent image options (s.after requests) := by
  induction requests generalizing s with
  | nil => exact h
  | cons r rest ih => exact ih (h.run r)

theorem Consistent.answer (h : Consistent image options s) (r : Request) :
    (r.run s).1 = answerOf image options r :=
  (settled_ask r s h).answer_eq

theorem Consistent.answers (h : Consistent image options s) (requests : List Request) :
    s.answers requests = requests.map (answerOf image options) := by
  induction requests generalizing s with
  | nil => rfl
  | cons r rest ih => rw [Session.answers, h.answer r, ih (h.run r), List.map_cons]

/-- Whatever was asked for before, a request has the answer of a fresh session. -/
theorem answer_after (earlier : List Request) (r : Request) :
    (r.run ((start image options).after earlier)).1 = answerOf image options r :=
  ((consistent_start image options).after earlier).answer r

theorem eq_ok_of_map_eq_ok {α β : Type} {f : α → β} {x : Except Error α} {b : β}
    (h : x.map f = .ok b) : ∃ a, x = .ok a ∧ f a = b := by
  cases x with
  | error e => cases h
  | ok a => exact ⟨a, rfl, Except.ok.inj h⟩

theorem sectionPageOf_unfocused {home : Section} {semantic : Semantic} {view : RowView}
    (h : sectionPageOf image options home semantic = .rows view) : Unfocused view.rows := by
  cases semantic with
  | ehFrame => cases h
  | _ =>
    cases h
    exact unfocused_sectionView _ home _

theorem pageOf_unfocused {key : PageKey} {view : RowView}
    (h : pageOf image options key = .ok (.rows view)) : Unfocused view.rows := by
  cases key with
  | ofSection number semantic =>
    rw [pageOf] at h
    cases hhome : image.sectionAt? number.toUInt32 with
    | none => simp [hhome] at h
    | some home =>
      rw [hhome] at h
      exact sectionPageOf_unfocused (Except.ok.inj h)
  | ofSymbol number semantic =>
    obtain ⟨place, -, hpage⟩ := exists_ok_of_bind_ok h
    obtain ⟨view', hview, heq⟩ := eq_ok_of_map_eq_ok hpage
    cases heq
    exact unfocused_symbolView hview

/-- Memory is transparent. In every sequence of requests each answer, success or failure, is the one
that a fresh session gives. So no page of a section or a symbol is highlighted, whichever anchors
were opened before, and what failed once fails again in the same way. -/
theorem answers_as_in_fresh_session (image : Image) (options : Options) :
    (∀ requests, (start image options).answers requests =
      requests.map fun r => (r.run (start image options)).1) ∧
    (∀ earlier number semantic? view,
      ((Request.sectionPage number semantic?).run ((start image options).after earlier)).1
          = .ok (.page (.rows view)) ∨
        ((Request.symbolPage number semantic?).run ((start image options).after earlier)).1
          = .ok (.page (.rows view)) →
      ∀ row ∈ view.rows, row.focused = false) ∧
    (∀ earlier (r : Request) between e, (r.run ((start image options).after earlier)).1 = .error e →
      (r.run ((start image options).after (earlier ++ r :: between))).1 = .error e) := by
  refine ⟨fun requests => ?_, fun earlier number semantic? view h => ?_,
    fun earlier r between e h => ?_⟩
  · rw [(consistent_start image options).answers]
    exact List.map_congr_left fun r _ => ((consistent_start image options).answer r).symm
  · rw [answer_after, answer_after] at h
    rcases h with h | h
    all_goals
      obtain ⟨page, hpage, heq⟩ := eq_ok_of_map_eq_ok h
      cases heq
      exact pageOf_unfocused hpage
  · rw [answer_after] at h ⊢
    exact h

end Runs

end Session

end MachInspect
