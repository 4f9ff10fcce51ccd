-- SUMMARY: When a session reads the debug information.
import MachInspect.Image.Outline
import MachInspect.Proofs.Session.Transparency
import MachInspect.Symbols.Listing

/-!
# Loading of debug information

Debug information is read by the first request that needs it, deep inside the making of a page, and
a page that is remembered is not made again. Whether it has been read is still a matter of the
requests alone: a page of declared types is only remembered once the information has been read, so
leaving out its making changes nothing. `Knows` is this invariant, and `Loads` says of a request
whether it reads the information.
-/
namespace MachInspect

open View Value

/-! ## Questions -/

/-- A request to a session, or a question about its image. -/
inductive Question where
  | request (r : Request)
  /-- The header and the load commands. -/
  | outline
  /-- The symbol table. -/
  | symbolRows

inductive Reply where
  | answer (answer : Answer)
  | outline (nodes : List Outline)
  | symbolRows (rows : List SymbolRow)

namespace Question

def ask : Question → Inspect Reply
  | request r => return .answer (← r.ask)
  | outline => return .outline (← get).image.outline
  | symbolRows => return .symbolRows (← get).image.symbolRows

/-- The reply to a question, and the session after it. -/
def run (q : Question) (s : Session) : Except Error Reply × Session := exec q.ask s

end Question

/-- Whether a request asks for debug information: by itself, or for a page of declared types. The
section of such a page has to exist; the symbol need not. -/
def Request.needsDebug (image : Image) : Request → Bool
  | sectionPage number semantic? =>
    semantic? = some .declared && (image.sectionAt? number.toUInt32).isSome
  | symbolPage _ semantic? => semantic? = some .declared
  | debugInfo | variableType _ => true
  | openAnchor _ | sectionTable _ | symbolTable _ | lookup _ => false

def Question.needsDebug (image : Image) : Question → Bool
  | request r => r.needsDebug image
  | outline | symbolRows => false

/-- The session after a list of questions. -/
def Session.afterAll (s : Session) (questions : List Question) : Session :=
  questions.foldl (fun s q => (q.run s).2) s

/-! ## The invariant -/

/-- How the page of a key is decoded. -/
def PageKey.semantic : PageKey → Semantic
  | ofSection _ semantic => semantic
  | ofSymbol _ semantic => semantic

namespace Session

/-- A session over the image, in which the debug information has been read if `loaded` says so. -/
structure Knows (image : Image) (options : Options) (loaded : Bool) (s : Session) : Prop where
  image_eq : s.image = image
  options_eq : s.options = options
  loaded_eq : s.debugLoaded = loaded
  /-- Pages of declared types are made after the debug information has been read. -/
  declared : ∀ {key page}, s.pages.lookup key = some page → key.semantic = .declared →
    options.loadDebug = true → loaded = true

/-- The request reads the debug information if `reads` says so and loading is on. -/
def Loads {α : Type} (image : Image) (options : Options) (m : Inspect α) (reads : Bool) : Prop :=
  ∀ loaded s, Knows image options loaded s →
    Knows image options (loaded || options.loadDebug && reads) (exec m s).2

section Rules

variable {α β : Type} {image : Image} {options : Options} {loaded reads : Bool} {s : Session}

theorem knows_start (image : Image) (options : Options) :
    Knows image options false (start image options) where
  image_eq := rfl
  options_eq := rfl
  loaded_eq := rfl
  declared h := by cases h

/-- A request that leaves the session as it is does not read anything. -/
theorem Knows.same (h : Knows image options loaded s) :
    Knows image options (loaded || options.loadDebug && false) s := by
  simpa using h

theorem Loads.pure (a : α) : Loads image options (pure a) false :=
  fun _ _ hs => hs.same

theorem Loads.throw (e : Error) : Loads image options (throw e : Inspect α) false :=
  fun _ _ hs => hs.same

/-- A request that looks at the session first. -/
theorem Loads.look {f : Session → Inspect α}
    (hf : ∀ s, s.image = image → s.options = options → Loads image options (f s) reads) :
    Loads image options (get >>= f) reads := by
  intro loaded s hs
  rw [exec_bind_ok (exec_get s)]
  exact hf s hs.image_eq hs.options_eq loaded s hs

/-- What comes after the reading may look at the outcome, but not read again. -/
theorem Loads.bind {m : Inspect α} {f : α → Inspect β} (hm : Loads image options m reads)
    (hf : ∀ a, Loads image options (f a) false) : Loads image options (m >>= f) reads := by
  intro loaded s hs
  have hnext := hm loaded s hs
  rw [exec_bind]
  generalize exec m s = outcome at hnext ⊢
  rcases outcome with ⟨e | a, t⟩
  · exact hnext
  · simpa using hf a _ t hnext

theorem Loads.tryCatch {m : Inspect α} {handle : Error → Inspect α}
    (hm : Loads image options m reads) (hhandle : ∀ e, Loads image options (handle e) false) :
    Loads image options (tryCatch m handle) reads := by
  intro loaded s hs
  have hnext := hm loaded s hs
  rw [exec_tryCatch]
  generalize exec m s = outcome at hnext ⊢
  rcases outcome with ⟨e | a, t⟩
  · simpa using hhandle e _ t hnext
  · exact hnext

theorem Loads.lift (x : Except Error α) : Loads image options (liftM x : Inspect α) false := by
  intro loaded s hs
  rw [exec_lift]
  exact hs.same

end Rules

/-! ## Requests -/

section Requests

variable {image : Image} {options : Options}

theorem loads_debugInfo : Loads image options Inspect.debugInfo true := by
  intro loaded s hs
  obtain ⟨rfl, rfl, hloaded, -⟩ := id hs
  rw [Inspect.debugInfo, exec_bind_ok (exec_get s)]
  by_cases hload : s.options.loadDebug = true
  · have hread : (loaded || s.options.loadDebug && true) = true := by simp [hload]
    rw [if_pos hload, hread]
    cases hdebug : s.debug with
    | some info? =>
      have hsome : s.debugLoaded = true := by simp [debugLoaded, hdebug]
      exact ⟨rfl, rfl, hsome, fun _ _ _ => rfl⟩
    | none => exact ⟨rfl, rfl, rfl, fun _ _ _ => rfl⟩
  · have hoff : (loaded || s.options.loadDebug && true) = loaded := by simp [hload]
    rw [if_neg hload, hoff]
    exact hs

/-- Types are remembered apart from pages. -/
theorem loads_variableType (info : Debug.Info) (name : String) :
    Loads image options (Inspect.variableType info name) false := by
  refine Loads.look fun s _ _ => ?_
  cases s.types.lookup name with
  | some type? => exact Loads.pure _
  | none =>
    refine (Loads.lift _).bind fun type? => ?_
    refine Loads.bind (fun loaded t ht => ?_) fun _ => Loads.pure _
    obtain ⟨himage, hoptions, hloaded, hdeclared⟩ := ht.same
    exact ⟨himage, hoptions, hloaded, hdeclared⟩

/-- Types are looked up in what has been read already. -/
theorem loads_declaration (name : String) (info? : Option Debug.Info) :
    Loads image options (Inspect.declaration name info?) false := by
  cases info? with
  | none => exact Loads.pure _
  | some info =>
    refine Loads.tryCatch ?_ fun e => Loads.pure _
    refine (loads_variableType info name).bind fun type? => ?_
    cases type? with
    | some type => exact Loads.pure _
    | none => exact Loads.pure _

/-- A page that is remembered is not made, but what its making reads has been read before. -/
theorem loads_remembered (key : PageKey) {make : Inspect Page}
    (hmake : Loads image options make (key.semantic = .declared)) :
    Loads image options (Inspect.remembered key make) (key.semantic = .declared) := by
  intro loaded s hs
  rw [Inspect.remembered, exec_bind_ok (exec_get s)]
  cases hlookup : s.pages.lookup key with
  | some page =>
    have hread : (loaded || options.loadDebug && decide (key.semantic = .declared)) = loaded := by
      simp only [Bool.or_eq_left_iff_imp, Bool.and_eq_true, decide_eq_true_eq]
      rintro ⟨hload, hdeclared⟩
      exact hs.declared hlookup hdeclared hload
    rw [hread]
    exact hs
  | none =>
    have hnext := hmake loaded s hs
    rw [exec_bind]
    generalize exec make s = outcome at hnext ⊢
    rcases outcome with ⟨e | page, t⟩
    · exact hnext
    · refine ⟨hnext.image_eq, hnext.options_eq, hnext.loaded_eq, ?_⟩
      intro other page' hother hdeclared hload
      -- the new page is of declared types only if its making has just read the information
      rcases eq_or_of_lookup_cons hother with ⟨rfl, -⟩ | hbefore
      · simp [hdeclared, hload]
      · exact hnext.declared hbefore hdeclared hload

/-- Declared types are never guessed. -/
theorem ofSection_ne_declared (image : Image) (home : Section) :
    Semantic.ofSection image home ≠ .declared := by
  unfold Semantic.ofSection Semantic.ofFlags
  repeat' split
  all_goals decide

theorem getD_ofSection_eq_declared_iff (image : Image) (home : Section)
    {semantic? : Option Semantic} :
    semantic?.getD (Semantic.ofSection image home) = .declared ↔ semantic? = some .declared := by
  cases semantic? with
  | none => simp [ofSection_ne_declared]
  | some semantic => simp

theorem ofSymbol?_ne_declared (image : Image) (index : Nat) :
    Semantic.ofSymbol? image index ≠ some .declared := by
  simp [Semantic.ofSymbol?, Option.bind_eq_some_iff, ofSection_ne_declared]

theorem symbolSemantic_eq_declared_iff (image : Image) (number : UInt64)
    {semantic? : Option Semantic} :
    Inspect.symbolSemantic image number semantic? = .declared ↔ semantic? = some .declared := by
  cases semantic? with
  | some semantic => cases semantic <;> simp [Inspect.symbolSemantic]
  | none =>
    have hguess := ofSymbol?_ne_declared image number.toNat
    cases hfound : Semantic.ofSymbol? image number.toNat with
    | none => simp [Inspect.symbolSemantic, hfound]
    | some semantic =>
      rw [hfound] at hguess
      cases semantic <;> simp_all [Inspect.symbolSemantic]

/-- A request for a section that does not exist stops there. -/
theorem Loads.sectionAt {α : Type} {number : UInt64} {f : Section → Inspect α} {reads : Bool}
    (hnone : image.sectionAt? number.toUInt32 = none → reads = false)
    (hsome : ∀ home, image.sectionAt? number.toUInt32 = some home →
      Loads image options (f home) reads) :
    Loads image options (Inspect.sectionAt number >>= f) reads := by
  rw [Inspect.sectionAt, bind_assoc]
  refine Loads.look fun s himage _ => ?_
  rw [himage]
  cases hfound : image.sectionAt? number.toUInt32 with
  | none =>
    rw [hnone hfound]
    exact fun _ _ hs => hs.same
  | some home => exact hsome home hfound

theorem loads_sectionPage (number : UInt64) (semantic? : Option Semantic) :
    Loads image options (Inspect.sectionPage number semantic?)
      ((Request.sectionPage number semantic?).needsDebug image) := by
  rw [Request.needsDebug]
  refine Loads.sectionAt (by simp +contextual) fun home hhome => Loads.look fun s himage _ => ?_
  simp only [himage, hhome, Option.isSome_some, Bool.and_true,
    ← getD_ofSection_eq_declared_iff image home]
  generalize semantic?.getD (Semantic.ofSection image home) = semantic
  refine loads_remembered (.ofSection number semantic) (Loads.look fun s _ _ => ?_)
  cases semantic with
  | declared =>
    have hdiscard : Loads image options (discard Inspect.debugInfo) true :=
      loads_debugInfo.bind fun _ => Loads.pure _
    exact hdiscard.bind fun _ => Loads.pure _
  | _ => exact Loads.pure _

theorem loads_symbolPage (number : UInt64) (semantic? : Option Semantic) :
    Loads image options (Inspect.symbolPage number semantic?)
      ((Request.symbolPage number semantic?).needsDebug image) := by
  refine Loads.look fun s himage _ => ?_
  simp only [himage, Request.needsDebug,
    ← symbolSemantic_eq_declared_iff image number]
  generalize Inspect.symbolSemantic image number semantic? = semantic
  have hview (ctx : Context) (declaration : Declaration) : Loads image options
      (do return Page.rows (← symbolView ctx number semantic declaration)) false :=
    (Loads.lift _).bind fun view => Loads.pure _
  refine loads_remembered (.ofSymbol number semantic) ?_
  rw [PageKey.semantic]
  -- All that reads is the first step; what fails after it has read all the same.
  by_cases hdeclared : semantic = .declared
  · rw [decide_eq_true hdeclared]
    simp only [if_pos hdeclared]
    refine loads_debugInfo.bind fun info? => Loads.look fun s _ _ => ?_
    refine (Loads.lift _).bind fun place => ?_
    exact (loads_declaration place.symbol.name info?).bind (hview _)
  · rw [decide_eq_false hdeclared]
    simp only [if_neg hdeclared]
    refine (Loads.pure none).bind fun info? => Loads.look fun s _ _ => ?_
    exact (Loads.lift _).bind fun place => (Loads.pure _).bind (hview _)

/-- Anchors lead to pages with guessed types. -/
theorem loads_openAnchor (anchor : Anchor) :
    Loads image options (Inspect.openAnchor anchor) false := by
  cases anchor with
  | symbol index addend size =>
    refine Loads.look fun s _ _ => ?_
    cases s.image.symbol? index.toUInt32 with
    | none => exact Loads.throw _
    | some symbol => exact (loads_symbolPage index none).bind fun _ => Loads.pure _
  | address address size =>
    refine Loads.look fun s _ _ => ?_
    cases s.sectionContaining? address with
    | none => exact Loads.throw _
    | some number => exact (loads_sectionPage _ none).bind fun _ => Loads.pure _

theorem loads_symbolTable (number : UInt64) :
    Loads image options (Inspect.symbolTable number) false := by
  intro loaded s hs
  rw [Inspect.symbolTable, exec_bind_ok (exec_get s)]
  cases s.tables.lookup number with
  | some table => exact hs.same
  | none =>
    cases s.index.groupOf? number.toNat with
    | none => exact hs.same
    | some g =>
      obtain ⟨himage, hoptions, hloaded, hdeclared⟩ := hs.same
      exact ⟨himage, hoptions, hloaded, hdeclared⟩

/-- One question reads the debug information if and only if it needs it and loading is on. -/
theorem loads_ask (q : Question) : Loads image options q.ask (q.needsDebug image) := by
  cases q with
  | outline | symbolRows => exact Loads.look fun s _ _ => Loads.pure _
  | request r =>
    refine Loads.bind ?_ fun _ => Loads.pure _
    rw [Question.needsDebug]
    cases r with
    | sectionPage number semantic? =>
      exact (loads_sectionPage number semantic?).bind fun _ => Loads.pure _
    | symbolPage number semantic? =>
      exact (loads_symbolPage number semantic?).bind fun _ => Loads.pure _
    | openAnchor anchor => exact (loads_openAnchor anchor).bind fun _ => Loads.pure _
    | sectionTable number =>
      refine Loads.bind (Loads.sectionAt (fun _ => rfl) fun home _ => ?_) fun _ => Loads.pure _
      exact Loads.look fun s _ _ => Loads.pure _
    | symbolTable number => exact (loads_symbolTable number).bind fun _ => Loads.pure _
    | lookup address => exact Loads.look fun s _ _ => Loads.pure _
    | debugInfo => exact loads_debugInfo.bind fun _ => Loads.pure _
    | variableType name =>
      refine loads_debugInfo.bind fun info? => ?_
      cases info? with
      | none => exact Loads.pure _
      | some info => exact (loads_variableType info name).bind fun _ => Loads.pure _

end Requests

/-! ## Runs -/

section Runs

variable {image : Image} {options : Options} {loaded : Bool} {s : Session}

theorem Knows.afterAll (h : Knows image options loaded s) (questions : List Question) :
    Knows image options
      (loaded || options.loadDebug && questions.any fun q => q.needsDebug image)
      (s.afterAll questions) := by
  induction questions generalizing loaded s with
  | nil => exact h.same
  | cons q rest ih =>
    have hrest := ih (loads_ask q loaded s h)
    rwa [Bool.or_assoc, ← Bool.and_or_distrib_left, ← List.any_cons] at hrest

theorem afterAll_append (s : Session) (earlier later : List Question) :
    s.afterAll (earlier ++ later) = (s.afterAll earlier).afterAll later :=
  List.foldl_append

/-- Debug information is read exactly when it is asked for: after any list of questions it has been
read if and only if loading is on and some question asked for debug information, for a section that
exists as declared types, or for any symbol as declared types. Once read, it stays so. -/
theorem debug_loaded_iff_asked (image : Image) (options : Options) :
    (∀ questions, ((start image options).afterAll questions).debugLoaded = true ↔
      options.loadDebug = true ∧ ∃ q ∈ questions, q.needsDebug image = true) ∧
    ∀ earlier later, ((start image options).afterAll earlier).debugLoaded = true →
      ((start image options).afterAll (earlier ++ later)).debugLoaded = true := by
  have hknows (questions : List Question) := (knows_start image options).afterAll questions
  refine ⟨fun questions => ?_, fun earlier later hloaded => ?_⟩
  · rw [(hknows questions).loaded_eq]
    simp
  · rw [afterAll_append, ((hknows earlier).afterAll later).loaded_eq]
    rw [(hknows earlier).loaded_eq] at hloaded
    rw [hloaded, Bool.true_or]

end Runs

end Session

end MachInspect
