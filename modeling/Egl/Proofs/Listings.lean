import Egl.Demo.Listing
import Egl.Proofs.Hosting
import Egl.Proofs.Levels

namespace Egl.Proofs

open Backend (Attributes displayHandle configHandle)

variable {b : Backend} {w : World} {config : Attributes} {vendor apis extensions : String}

/-- The line of a config with given attributes. -/
def line (config : Attributes) : Notice := .config .info (portrait config)

theorem list_prints {i : Nat} (hi : b.configs[i]? = some config) :
    Prints b (Demo.list (ref i)) () [line config] :=
  (describe_prints hi).bind (Prints.note _)

/-- What is in a table for some request: the attributes of configs, with their places. -/
def found (b : Backend) (wanted : Attributes → Bool) : List (Attributes × Nat) :=
  b.configs.zipIdx.filter fun (config, _) => wanted config

theorem mem_found {wanted : Attributes → Bool} {p : Attributes × Nat} (h : p ∈ found b wanted) :
    b.configs[p.2]? = some p.1 :=
  List.mk_mem_zipIdx_iff_getElem?.mp (List.mem_filter.mp h).1

theorem found_configs (b : Backend) (wanted : Attributes → Bool) :
    (found b wanted).map Prod.fst = b.configs.filter wanted := by
  have hfirst : b.configs.zipIdx.map Prod.fst = b.configs := List.zipIdx_map_fst 0 b.configs
  calc (found b wanted).map Prod.fst
      = (b.configs.zipIdx.map Prod.fst).filter wanted := by rw [List.filter_map]; rfl
    _ = b.configs.filter wanted := by rw [hfirst]

/-- The loop over the configs writes one line for each of them, in order. -/
theorem lists_print {pairs : List (Attributes × Nat)}
    (h : ∀ p ∈ pairs, b.configs[p.2]? = some p.1) :
    Prints b ((pairs.map fun p => ref p.2).forM Demo.list) () (pairs.map fun p => line p.1) := by
  induction pairs with
  | nil => exact .pure ()
  | cons p rest ih =>
    have hrest := ih fun q hq => h q (List.mem_cons_of_mem _ hq)
    exact (list_prints (h p List.mem_cons_self)).bind hrest

/-- The configs that some request finds. -/
def finds (b : Backend) (wanted : Attributes → Bool) : List ConfigRef :=
  (found b wanted).map fun p => ref p.2

theorem finds_located (b : Backend) (wanted : Attributes → Bool) :
    finds b wanted = (located b wanted).map ref := by
  rw [finds, located, List.map_map]
  rfl

/-- After an enumeration, its number of configs is stated before they are listed. -/
theorem counted_print (b : Backend) (wanted : Attributes → Bool) :
    Prints b
      (do Op.note (.configCount (finds b wanted).length)
          (finds b wanted).forM Demo.list
          return Exit.success)
      .success
      (.configCount (b.configs.filter wanted).length :: (b.configs.filter wanted).map line) := by
  have hlines : (b.configs.filter wanted).map line =
      (found b wanted).map fun p => line p.1 := by
    rw [← found_configs, List.map_map]
    rfl
  have hcount : (b.configs.filter wanted).length = (finds b wanted).length := by
    rw [← found_configs, List.length_map, finds, List.length_map]
  have hloop : Prints b ((finds b wanted).forM Demo.list) ()
      ((found b wanted).map fun p => line p.1) := lists_print fun p hp => mem_found hp
  rw [hlines, hcount]
  exact (Prints.note _).line (hloop.returning Exit.success)

/-- A config has at least eight bits in each channel. -/
def Wide (config : Attributes) : Prop :=
  8 ≤ (config.value Code.redSize).toInt ∧ 8 ≤ (config.value Code.greenSize).toInt ∧
    8 ≤ (config.value Code.blueSize).toInt ∧ 8 ≤ (config.value Code.alphaSize).toInt

instance (config : Attributes) : Decidable (Wide config) := inferInstanceAs (Decidable (_ ∧ _))

/-- The filter of the demo asks for eight bits in each channel and for nothing else. -/
theorem selects_eightBit : Selects (Demo.eightBitFilter host) config ↔ Wide config := by
  rw [selects_without_id (by rfl)]
  constructor
  · intro h
    exact ⟨h .redSize 8 rfl (by decide), h .greenSize 8 rfl (by decide),
      h .blueSize 8 rfl (by decide), h .alphaSize 8 rfl (by decide)⟩
  · rintro ⟨hred, hgreen, hblue, halpha⟩ c wanted hget _
    cases c
    case redSize =>
      cases hget
      exact hred
    case greenSize =>
      cases hget
      exact hgreen
    case blueSize =>
      cases hget
      exact hblue
    case alphaSize =>
      cases hget
      exact halpha
    all_goals cases hget

/-- The configs that the demo lists, of all in the table. -/
def listed (arguments : List Bytes) (config : Attributes) : Bool :=
  !Demo.wantsEightBits arguments || decide (Wide config)

theorem full_prints (hn : b.configs.length < 2147483648) {arguments : List Bytes}
    (ha : ¬ Demo.wantsEightBits arguments = true) :
    Prints b host.configs (finds b (listed arguments)) [] := by
  have hall : listed arguments = fun _ => true := by
    funext config
    rw [listed, Bool.not_eq_true _ |>.mp ha]
    rfl
  rw [finds_located, hall]
  exact configs_prints hn

theorem narrowed_prints (hn : b.configs.length < 2147483648) {arguments : List Bytes}
    (ha : Demo.wantsEightBits arguments = true) :
    Prints b (Demo.eightBitFilter host).chooseConfigs
      (finds b (listed arguments)) [] := by
  have hwide : listed arguments = (·.satisfies (Demo.eightBitFilter host).wanted) := by
    funext config
    rw [listed, ha, Bool.eq_iff_iff, satisfies_iff_selects, selects_eightBit]
    simp
  rw [finds_located, hwide, ← places_eq_located]
  exact chooseConfigs_prints hn _

/-- The texts with which an implementation introduces itself. -/
structure Introduces (b : Backend) (vendor apis extensions : String) : Prop where
  display : b.hasDisplay = true
  vendor : spoken b .vendor = some vendor
  apis : spoken b .clientApis = some apis
  extensions : spoken b .extensions = some extensions

/-- The lines about the implementation, before any config is listed. -/
def introduction (b : Backend) (vendor apis extensions : String) : List Notice :=
  [.versionKnown displayHandle b.major b.minor, .implementation b.major b.minor vendor,
    .clientApis apis, .extensions extensions]

theorem listing_prints (hn : b.configs.length < 2147483648)
    (h : Introduces b vendor apis extensions) (arguments : List Bytes) :
    Prints b (Demo.listing arguments host) .success
      (introduction b vendor apis extensions ++
        .configCount (b.configs.filter (listed arguments)).length ::
          (b.configs.filter (listed arguments)).map line) := by
  rw [introduction, List.cons_append, List.cons_append, List.cons_append, List.cons_append,
    List.nil_append]
  refine (startVersion_prints b).line ?_
  refine (text_prints h.vendor).quiet ((Prints.note _).line ?_)
  refine (text_prints h.apis).quiet ((Prints.note _).line ?_)
  refine (text_prints h.extensions).quiet ((Prints.note _).line ?_)
  have hcounted := counted_print b (listed arguments)
  exact .either (fun ha => (narrowed_prints hn ha).quiet hcounted)
    fun ha => (full_prints hn ha).quiet hcounted

/-- What a run of the demo comes to: it succeeds, and it logs some lines before and after the
configs and states how many of them there are. -/
structure Listing (w : World) (arguments : List Bytes) (opening : List Notice)
    (configs : List Attributes) : Prop where
  exit : (Demo.runListing arguments w).1 = .ok .success
  log : (Demo.runListing arguments w).2.log = w.log ++ opening ++
    .configCount configs.length :: configs.map line ++ [.unbinding, .terminating displayHandle]

theorem Hosts.listing (h : Hosts b w) (hn : b.configs.length < 2147483648)
    (hi : Introduces b vendor apis extensions) (arguments : List Bytes) :
    Listing w arguments (.connected displayHandle :: introduction b vendor apis extensions)
      (b.configs.filter (listed arguments)) := by
  obtain ⟨mid, hconnect, hmid, hlog⟩ := connect_prints hi.display w h
  obtain ⟨after, hlisting, hafter, hlog'⟩ := listing_prints hn hi arguments mid hmid
  have hrun : Demo.withDisplay (Demo.listing arguments) w =
      .ok .success (host.release after) := by
    rw [Demo.withDisplay, bind_ok hconnect, Op.ensuring, hlisting]
  have hconclude : Demo.runListing arguments w = (.ok .success, host.release after) := by
    rw [Demo.runListing, Demo.conclude, hrun]
  refine ⟨by rw [hconclude], ?_⟩
  rw [hconclude, hafter.release, hlog', hlog]
  simp only [List.append_assoc, List.cons_append, List.nil_append]

/-- With eight bits in each channel asked for, the demo lists the right part of the table. The lines
before the configs do not depend on it. -/
structure Narrowed (w : World) (configs : List Attributes) (opening : List Notice) : Prop where
  full : Listing w [] opening configs
  narrowed : ∀ rest, Listing w (Demo.eightBitArgument :: rest) opening
    (configs.filter fun config => Wide config)
  /-- Any other argument is as good as none. -/
  other : ∀ arguments, Demo.wantsEightBits arguments = false →
    Listing w arguments opening configs

/-- On an implementation that serves and introduces itself, the demo that is asked for eight bits in
each channel logs the same lines as without, less those of the other configs. -/
theorem listing_narrowed {configs : List Attributes} (h : Serves configs w)
    (hn : configs.length < 2147483648) (hi : Introduces w.backend vendor apis extensions) :
    Narrowed w configs
      (.connected displayHandle :: introduction w.backend vendor apis extensions) := by
  obtain rfl := h.table
  have hhosts : Hosts w.backend w := ⟨h, rfl, rfl, rfl, rfl⟩
  have hother : ∀ arguments, Demo.wantsEightBits arguments = false → Listing w arguments
      (.connected displayHandle :: introduction w.backend vendor apis extensions)
      w.backend.configs := by
    intro arguments ha
    have hlisting := hhosts.listing hn hi arguments
    rwa [List.filter_eq_self.mpr fun config _ => by rw [listed, ha]; rfl] at hlisting
  refine ⟨hother [] rfl, ?_, hother⟩
  intro rest
  have hlisting := hhosts.listing hn hi (Demo.eightBitArgument :: rest)
  have ha : Demo.wantsEightBits (Demo.eightBitArgument :: rest) = true := by
    have hwhole : Demo.eightBitArgument.upToZero = Demo.eightBitArgument := by decide +kernel
    exact decide_eq_true (congrArg some hwhole)
  have hwide : listed (Demo.eightBitArgument :: rest) = fun config => decide (Wide config) := by
    funext config
    rw [listed, ha]
    rfl
  rwa [hwide] at hlisting

/-- Two configs with eight bits in each channel between one with fewer and one with none. -/
def palette : Backend where
  configs := [.make 1 5 6 5 0 16 0, .make 2 8 8 8 8 24 8, .make 3 10 10 10 8 24 0,
    .ofList [(Code.configId, 4), (Code.redSize, -8), (Code.samples, 4)]]
  strings := .ofList [(Code.vendor, .ofString "memory"), (Code.clientApis, .ofString "OpenGL_ES"),
    (Code.extensions, [])]

theorem listing_narrowed_palette :
    Serves palette.configs { backend := palette } ∧ palette.configs.length < 2147483648 ∧
      Introduces palette "memory" "OpenGL_ES" "" ∧
      Narrowed { backend := palette } palette.configs
        (.connected displayHandle :: introduction palette "memory" "OpenGL_ES" "") := by
  have hserves : Serves palette.configs { backend := palette } := by
    refine ⟨?_, rfl, rfl⟩
    intro e
    exact ⟨by decide, by simp, by simp [palette]⟩
  have hintroduces : Introduces palette "memory" "OpenGL_ES" "" :=
    ⟨rfl, by decide +kernel, by decide +kernel, by decide +kernel⟩
  exact ⟨hserves, by decide, hintroduces, listing_narrowed hserves (by decide) hintroduces⟩

example : palette.configs.filter (fun config => Wide config) =
    [.make 2 8 8 8 8 24 8, .make 3 10 10 10 8 24 0] := by decide +kernel

end Egl.Proofs
