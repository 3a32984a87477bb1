import PathFacts.Proofs.Codec.Meaning
import PathFacts.Proofs.Yaml.Codec
import PathFacts.Settings.Document

/-!
# Settings chosen in a file and settings chosen by a program

A `Choice` says which settings somebody chose.  There are two ways to put it into effect: to write
it into a file (`Choice.file`), or to call the setter of each setting (`Choice.applyTo`).  Both give
the same settings (`Choice.means_file`), in any order of the entries and with any indentation, and a
file is refused only for a sleep that is out of range (`Choice.check_applyTo`).

Settings that are written out are a choice of every setting, `Choice.all`.

All this holds for every codec that does what its documentation says.
-/

namespace PathFacts.Settings

open Yaml (Content Outline IsKey)

/-- Which settings were chosen, and how. -/
structure Choice where
  caching : Option Bool := none
  waiters : Option UInt64 := none
  pollMillis : Option UInt64 := none
  stitching : Option Bool := none
deriving DecidableEq

namespace Choice

/-! ## By setters -/

/-- Sets what was chosen. -/
def applyTo (c : Choice) (s : Settings) : Settings :=
  let s := c.caching.elim s s.setCaching
  let s := c.waiters.elim s s.setWaiters
  let s := c.pollMillis.elim s s.setPollMillis
  c.stitching.elim s s.setStitching

theorem applyTo_eq (c : Choice) (s : Settings) :
    c.applyTo s =
      ⟨⟨c.caching.getD s.cache.enabled⟩,
        ⟨c.waiters.getD s.waiting.limit, c.pollMillis.getD s.waiting.pollMillis⟩,
        ⟨c.stitching.getD s.analysis.stitching⟩⟩ := by
  rcases c with ⟨_ | _, _ | _, _ | _, _ | _⟩ <;> rfl

/-- Each setting is chosen as it stands. -/
def all (s : Settings) : Choice :=
  ⟨some s.cache.enabled, some s.waiting.limit, some s.waiting.pollMillis,
    some s.analysis.stitching⟩

theorem applyTo_all (s t : Settings) : (all s).applyTo t = s := rfl

/-! ## By a file -/

/-- The entries that are there, in their order. -/
def given : List (String × Option Content) → Outline
  | [] => .done
  | (_, none) :: rest => given rest
  | (key, some v) :: rest => .entry key v (given rest)

/-- The value of a setting that is a boolean. -/
def boolValue (b : Option Bool) : Option Content := b.map fun b => .inl (boolWord b)

/-- The value of a setting that is a number. -/
def numberValue (n : Option UInt64) : Option Content := n.map fun n => .inl (toString n.toNat)

/-- The value of a section, unless nothing in it was chosen. -/
def sectionValue (inner : Outline) : Option Content :=
  if inner = .done then none else some (.inr inner)

/-- The entries of the section on results. -/
def cacheEntries (c : Choice) : List (String × Option Content) := [("enabled", boolValue c.caching)]

/-- The entries of the section on waiting. -/
def waitingEntries (c : Choice) : List (String × Option Content) :=
  [("max_blocked_waiters", numberValue c.waiters), ("poll_interval_ms", numberValue c.pollMillis)]

/-- The entries of the section on analysis. -/
def analysisEntries (c : Choice) : List (String × Option Content) :=
  [("stitch_constructors", boolValue c.stitching)]

/-- The sections, each if something in it was chosen. -/
def sectionEntries (c : Choice) : List (String × Option Content) :=
  [("cache", sectionValue (given c.cacheEntries)),
    ("blocking", sectionValue (given c.waitingEntries)),
    ("analysis", sectionValue (given c.analysisEntries))]

/-- The version and the sections. -/
def fileEntries (c : Choice) : List (String × Option Content) :=
  ("version", some (.inl "1")) :: c.sectionEntries

/-- A file of the choice. -/
def file (c : Choice) : Outline := given c.fileEntries

/-! ## Entries that are there -/

variable {es : List (String × Option Content)} {key : String} {n : Nat}

theorem mem_entries_given {v : Content} :
    (key, v) ∈ (given es).entries ↔ (key, some v) ∈ es := by
  induction es with
  | nil => simp [given, Outline.entries]
  | cons e rest ih => rcases e with ⟨k, _ | w⟩ <;> simp [given, ih]

theorem keys_given_sublist (es : List (String × Option Content)) :
    (given es).keys.Sublist (es.map Prod.fst) := by
  induction es with
  | nil => exact .slnil
  | cons e rest ih =>
    rcases e with ⟨k, _ | v⟩
    · exact ih.cons k
    · rw [given, Outline.keys_entry]
      exact ih.cons_cons k

/-- A key that is there at most once has its value. -/
theorem value?_given {value : Option Content} (hkeys : (es.map Prod.fst).Nodup)
    (hmem : (key, value) ∈ es) : (given es).value? key = value := by
  induction es with
  | nil => cases hmem
  | cons e rest ih =>
    obtain ⟨hnew, hrest⟩ := List.nodup_cons.1 hkeys
    obtain ⟨k, w⟩ := e
    rcases List.mem_cons.1 hmem with heq | hlater
    · obtain ⟨rfl, rfl⟩ := Prod.mk.inj heq
      cases value with
      | none =>
        exact Outline.value?_eq_none_iff.2 fun h => hnew ((keys_given_sublist rest).subset h)
      | some v => exact Outline.value?_entry_self key v _
    · have hne : k ≠ key := by
        rintro rfl
        exact hnew (List.mem_map.2 ⟨_, hlater, rfl⟩)
      cases w with
      | none => exact ih hrest hlater
      | some v =>
        rw [given, Outline.value?_entry_of_ne hne]
        exact ih hrest hlater

theorem fit_given {α : Type} {fields : Fields α} {closed : Bool} (hdeclared : fields.keys.Nodup)
    (hkeys : (es.map Prod.fst).Nodup) (hknown : es.map Prod.fst ⊆ fields.keys) :
    fields.Fit closed (given es) where
  declared := hdeclared
  once := hkeys.sublist (keys_given_sublist es)
  known _ _ hkey := hknown ((keys_given_sublist es).subset hkey)

/-! ## Layout of a file -/

/-- Entries that can be laid out in lines, with at most `n` levels below them. -/
def AreLaidOut (n : Nat) (es : List (String × Option Content)) : Prop :=
  ∀ e ∈ es, ∀ v ∈ e.2, Outline.IsPlainEntry (e.1, v) ∧ v.depth ≤ n

theorem AreLaidOut.isPlain (h : AreLaidOut n es) : (given es).IsPlain :=
  (Outline.isPlain_iff _).2 fun e he => (h _ (mem_entries_given.1 he) e.2 rfl).1

theorem AreLaidOut.depth_le (h : AreLaidOut n es) : (given es).depth ≤ n :=
  (Outline.depth_le_iff _ n).2 fun e he => (h _ (mem_entries_given.1 he) e.2 rfl).2

theorem AreLaidOut.isDocument (h : AreLaidOut n es) (hn : n < 128) (hne : given es ≠ .done) :
    (given es).IsDocument :=
  ⟨hne, h.isPlain, Nat.lt_of_le_of_lt h.depth_le hn⟩

theorem laidOut_boolValue (hkey : IsKey key) (b : Option Bool) :
    ∀ v ∈ boolValue b, Outline.IsPlainEntry (key, v) ∧ v.depth ≤ 0 := by
  intro v hv
  obtain ⟨b, -, rfl⟩ := Option.map_eq_some_iff.1 hv
  exact ⟨⟨hkey, by cases b <;> decide⟩, Nat.le_refl 0⟩

theorem laidOut_numberValue (hkey : IsKey key) (m : Option UInt64) :
    ∀ v ∈ numberValue m, Outline.IsPlainEntry (key, v) ∧ v.depth ≤ 0 := by
  intro v hv
  obtain ⟨m, -, rfl⟩ := Option.map_eq_some_iff.1 hv
  exact ⟨⟨hkey, Yaml.isWord_decimal m.toNat⟩, Nat.le_refl 0⟩

theorem laidOut_sectionValue (hkey : IsKey key) (h : AreLaidOut n es) :
    ∀ v ∈ sectionValue (given es), Outline.IsPlainEntry (key, v) ∧ v.depth ≤ n + 1 := by
  intro v hv
  unfold sectionValue at hv
  split at hv
  · cases hv
  · next hne =>
    cases hv
    exact ⟨⟨hkey, hne, h.isPlain⟩, Nat.succ_le_succ h.depth_le⟩

theorem laidOut_sectionEntries (c : Choice) : AreLaidOut 1 c.sectionEntries := by
  obtain ⟨henabled, hwaiters, hmillis, hstitch⟩ : IsKey "enabled" ∧ IsKey "max_blocked_waiters" ∧
      IsKey "poll_interval_ms" ∧ IsKey "stitch_constructors" := by decide
  have hcache : AreLaidOut 0 c.cacheEntries :=
    List.forall_mem_cons.2 ⟨laidOut_boolValue henabled c.caching, nofun⟩
  have hwaiting : AreLaidOut 0 c.waitingEntries :=
    List.forall_mem_cons.2 ⟨laidOut_numberValue hwaiters c.waiters,
      List.forall_mem_cons.2 ⟨laidOut_numberValue hmillis c.pollMillis, nofun⟩⟩
  have hanalysis : AreLaidOut 0 c.analysisEntries :=
    List.forall_mem_cons.2 ⟨laidOut_boolValue hstitch c.stitching, nofun⟩
  simp only [AreLaidOut, sectionEntries, List.forall_mem_cons]
  exact ⟨laidOut_sectionValue (by decide) hcache, laidOut_sectionValue (by decide) hwaiting,
    laidOut_sectionValue (by decide) hanalysis, nofun⟩

theorem isDocument_file (c : Choice) : c.file.IsDocument := by
  have hversion : ∀ v ∈ some (.inl "1"), Outline.IsPlainEntry ("version", v) ∧ v.depth ≤ 1 := by
    rintro _ ⟨⟩
    exact ⟨⟨by decide, by decide⟩, Nat.zero_le 1⟩
  have hentries : AreLaidOut 1 c.fileEntries :=
    List.forall_mem_cons.2 ⟨hversion, c.laidOut_sectionEntries⟩
  exact hentries.isDocument (by decide) nofun

/-! ## What a file means -/

/-- A section in which nothing was chosen is left out and stays as it is, which is also what it
would mean without entries. -/
theorem means_section {α β : Type} {key : String} {layout : Layout β} {get : α → β}
    {set : β → α → α} {rest : Fields α} {standard z : β} {closed : Bool} {fields : Fields β}
    {o inner : Outline} {x y : α} (hlayout : layout = .record standard closed fields)
    (hstandard : set standard x = x) (hkey : o.value? key = sectionValue inner)
    (hmeans : layout.Means (.inr inner) z) (hrest : rest.Means o (set z x) y) :
    (Fields.cons key layout get set rest).Means o x y := by
  refine Fields.means_cons hkey ?_ hrest
  unfold sectionValue
  split
  · next hdone =>
    rw [hlayout, hdone] at hmeans
    show set z x = x
    rw [Layout.eq_standard_of_means_done hmeans, hstandard]
  · exact hmeans

/-- The entries of a section with a single key, which is for a boolean. -/
theorem means_boolValue {α : Type} (key : String) {get : α → Bool} {set : Bool → α → α}
    {standard x : α} (b : Option Bool) (hx : b.elim standard (set · standard) = x) :
    (Layout.record standard true (.cons key .bool get set .nil)).Means
      (.inr (given [(key, boolValue b)])) x := by
  have hkeys : [key].Nodup := by simp
  refine ⟨_, rfl, fit_given hkeys hkeys fun _ => id, ?_⟩
  have hvalue : (given [(key, boolValue b)]).value? key = boolValue b :=
    value?_given hkeys (.head _)
  cases b with
  | none => exact .inl ⟨hvalue, hx⟩
  | some b => exact .inr ⟨_, b, hvalue, rfl, hx⟩

theorem means_cacheEntries (c : Choice) :
    CacheSettings.layout.Means (.inr (given c.cacheEntries)) ⟨c.caching.getD true⟩ :=
  means_boolValue "enabled" c.caching (by cases c.caching <;> rfl)

theorem means_analysisEntries (c : Choice) :
    AnalysisSettings.layout.Means (.inr (given c.analysisEntries)) ⟨c.stitching.getD true⟩ :=
  means_boolValue "stitch_constructors" c.stitching (by cases c.stitching <;> rfl)

theorem means_waitingEntries (c : Choice) (processors : UInt64) :
    (WaitingSettings.layout processors).Means (.inr (given c.waitingEntries))
      ⟨c.waiters.getD processors, c.pollMillis.getD 10⟩ := by
  have hkeys : (c.waitingEntries.map Prod.fst).Nodup := by simp [waitingEntries]
  refine ⟨_, rfl, fit_given (by decide) hkeys (fun _ => id), ?_⟩
  refine Fields.means_cons (z := c.waiters.getD processors) (value?_given hkeys (.head _)) ?_ ?_
  · cases c.waiters <;> rfl
  refine Fields.means_cons (value?_given hkeys (.tail _ (.head _))) ?_ rfl
  cases c.pollMillis <;> rfl

/-- The file that a choice comes to on a machine with `processors` processors. -/
def settingsFile (c : Choice) (processors : UInt64) : SettingsFile where
  version := some 1
  cache := ⟨c.caching.getD true⟩
  waiting := ⟨c.waiters.getD processors, c.pollMillis.getD 10⟩
  analysis := ⟨c.stitching.getD true⟩

theorem settings_settingsFile (c : Choice) (processors : UInt64) :
    (c.settingsFile processors).settings = c.applyTo (standard processors) :=
  (applyTo_eq c (standard processors)).symm

/-- A file of a choice means what its setters do. -/
theorem means_file (c : Choice) (processors : UInt64) :
    (SettingsFile.layout processors).Means (.inr c.file) (c.settingsFile processors) := by
  have hkeys : (c.fileEntries.map Prod.fst).Nodup := by simp [fileEntries, sectionEntries]
  refine ⟨_, rfl, fit_given (by simp [Fields.keys]) hkeys (fun _ => id), ?_⟩
  refine Fields.means_cons (z := some 1) (value?_given hkeys (.head _))
    ⟨by simp [Content.IsNull], rfl⟩ ?_
  refine means_section rfl rfl (value?_given hkeys (.tail _ (.head _))) c.means_cacheEntries ?_
  refine means_section rfl rfl (value?_given hkeys (.tail _ (.tail _ (.head _))))
    (c.means_waitingEntries processors) ?_
  exact means_section rfl rfl (value?_given hkeys (.tail _ (.tail _ (.tail _ (.head _)))))
    c.means_analysisEntries rfl

/-- What the settings of a choice are refused for. -/
theorem check_applyTo (c : Choice) (processors : UInt64) :
    (c.applyTo (standard processors)).check =
      match c.pollMillis with
      | some millis =>
        if 1 ≤ millis.toNat ∧ millis.toNat ≤ 1000 then .ok ()
        else .error (.range "blocking.poll_interval_ms" (toString millis.toNat) "1" "1000"
          "Waiters need a non-zero poll interval")
      | none => .ok () := by
  rw [applyTo_eq, check, WaitingSettings.check]
  cases c.pollMillis with
  | none => rfl
  | some millis =>
    have hrange : (millis < WaitingSettings.minPollMillis
        || WaitingSettings.maxPollMillis < millis) = true
        ↔ ¬ (1 ≤ millis.toNat ∧ millis.toNat ≤ 1000) := by
      simp only [WaitingSettings.minPollMillis, WaitingSettings.maxPollMillis,
        UInt64.lt_iff_toNat_lt, UInt64.reduceToNat, Bool.or_eq_true, decide_eq_true_eq]
      omega
    simp only [Option.getD_some, hrange, ite_not]
    rfl

/-! ## What is written -/

theorem isFaithful_layout (processors : UInt64) : (layout processors).IsFaithful := by
  have hcache : CacheSettings.layout.IsFaithful :=
    ⟨by decide, fun _ _ => rfl, trivial, trivial⟩
  have hwaiting : (WaitingSettings.layout processors).IsFaithful :=
    ⟨by decide, fun _ _ => rfl, trivial, trivial, trivial⟩
  have hanalysis : AnalysisSettings.layout.IsFaithful :=
    ⟨by decide, fun _ _ => rfl, trivial, trivial⟩
  exact ⟨by simp [Fields.keys], fun _ _ => rfl, hcache, hwaiting, hanalysis, trivial⟩

/-- What is written of settings is the sections in which everything was chosen. -/
theorem written_layout (processors : UInt64) (s : Settings) :
    (layout processors).written s = .inr (given (all s).sectionEntries) := rfl

theorem isDocument_sectionEntries_all (s : Settings) :
    (given (all s).sectionEntries).IsDocument :=
  (laidOut_sectionEntries (all s)).isDocument (by decide) nofun

theorem text_file (c : Choice) (indent : Nat) :
    c.file.text indent = "version: 1\n" ++ (given c.sectionEntries).text indent := by
  apply String.toList_inj.1
  simp [file, fileEntries, given, Outline.entry, Outline.text, Outline.lines]

end Choice

/-! ## Both ways agree -/

/-- A file and setters agree: where a file gives the version and chooses settings, it is read as the
standard settings with these settings set, unless the sleep that it chooses is out of range.
Neither the order of its keys nor its indentation counts.  Settings that are written out are read
as they were, and with the version in front they are such a file. -/
theorem load_eq_applyTo_and_decode_encode {codec : Codec} {node : Content → codec.Node}
    (h : codec.Documented node) (processors : UInt64) :
    (∀ (c : Choice) (o : Outline) (indent : Nat), c.file.Rearranged o → 0 < indent →
      loadWith codec processors (o.text indent) =
        match c.pollMillis with
        | some millis =>
          if 1 ≤ millis.toNat ∧ millis.toNat ≤ 1000 then .ok (c.applyTo (standard processors))
          else .error (.range "blocking.poll_interval_ms" (toString millis.toNat) "1" "1000"
            "Waiters need a non-zero poll interval")
        | none => .ok (c.applyTo (standard processors))) ∧
    ∀ s : Settings, decodeWith codec processors (encodeWith codec processors s) = some s ∧
      (Choice.all s).applyTo (standard processors) = s ∧
      "version: 1\n" ++ encodeWith codec processors s = (Choice.all s).file.text 2 := by
  constructor
  · intro c o indent horder hindent
    have hmeans := Layout.means_rearranged _ (.mapping horder) (c.means_file processors)
    have hread := h.readText_of_means (horder.isDocument c.isDocument_file) hindent hmeans
    have hreadable : readableVersions.contains 1 = true := rfl
    simp only [loadWith, hread, Choice.settings_settingsFile]
    simp only [Choice.settingsFile, hreadable, if_true, Choice.check_applyTo]
    cases c.pollMillis with
    | none => rfl
    | some millis =>
      dsimp only
      split <;> rfl
  · intro s
    have hdocument := Choice.isDocument_sectionEntries_all s
    have hwritten := Choice.written_layout processors s
    refine ⟨h.readText_write (Choice.isFaithful_layout processors) hdocument hwritten,
      Choice.applyTo_all s _, ?_⟩
    rw [encodeWith, h.write_text hdocument hwritten, Choice.text_file]

/-- A file whose version comes second, and which gives the keys on waiting in another order. -/
def swappedFile : Outline :=
  .block "blocking" (.word "poll_interval_ms" "5" (.word "max_blocked_waiters" "3" .done))
    (.word "version" "1" (.block "analysis" (.word "stitch_constructors" "false" .done) .done))

theorem load_eq_applyTo_of_swappedFile :
    Yaml.codec.Documented Content.document ∧
      ({ waiters := some 3, pollMillis := some 5, stitching := some false } :
        Choice).file.Rearranged swappedFile ∧
      0 < 4 ∧
      swappedFile.text 4 = "blocking:\n    poll_interval_ms: 5\n    max_blocked_waiters: 3\n"
        ++ "version: 1\nanalysis:\n    stitch_constructors: false\n" ∧
      load 8 (swappedFile.text 4) = .ok ⟨⟨true⟩, ⟨3, 5⟩, ⟨false⟩⟩ ∧
      encode ⟨⟨true⟩, ⟨3, 5⟩, ⟨false⟩⟩ = "cache:\n  enabled: true\nblocking:\n"
        ++ "  max_blocked_waiters: 3\n  poll_interval_ms: 5\nanalysis:\n"
        ++ "  stitch_constructors: false\n" ∧
      decode 8 (encode ⟨⟨true⟩, ⟨3, 5⟩, ⟨false⟩⟩) = some ⟨⟨true⟩, ⟨3, 5⟩, ⟨false⟩⟩ := by
  have hfront : ({ waiters := some 3, pollMillis := some 5, stitching := some false } :
      Choice).file.Rearranged
        (.block "blocking" (.word "max_blocked_waiters" "3" (.word "poll_interval_ms" "5" .done))
          (.word "version" "1"
            (.block "analysis" (.word "stitch_constructors" "false" .done) .done))) :=
    .entries (.swap _ _ _)
  have hkeys : (Outline.word "max_blocked_waiters" "3"
      (.word "poll_interval_ms" "5" .done)).Rearranged
        (.word "poll_interval_ms" "5" (.word "max_blocked_waiters" "3" .done)) :=
    .entries (.swap _ _ _)
  have horder := hfront.trans (.inner hkeys)
  obtain ⟨hload, hencode⟩ := load_eq_applyTo_and_decode_encode Yaml.codec_documented 8
  exact ⟨Yaml.codec_documented, horder, by decide, by decide,
    hload _ swappedFile 4 horder (by decide), by decide, (hencode _).1⟩

end PathFacts.Settings
