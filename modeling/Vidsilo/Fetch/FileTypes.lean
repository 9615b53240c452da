import Mathlib.Data.List.DropRight
import Vidsilo.Fetch.SafeUrl

/-!
# The file type of an imported URL, in the API and in the worker

Source: internal/api/fromurl.go:31-66 (`checkURL`), internal/jobs/jobs.go:151-177 (`Download`
up to its extension check), internal/safeurl/safeurl.go:86-142.

Both ask the same remote, whose resolver and servers always answer in the same way, after
the same time and with bytes that arrive at the same times. Times are nanoseconds. The time
limit of `Resolve` starts with its first request; the lookup before it is not limited, and
those of redirects only use the time up. `lower` stands for `unicode.ToLower`.
-/
namespace Vidsilo.Fetch.FileTypes
open Library Library.Procedure Library.SlashPath Library.NetAddr SafeUrl

def second : Nat := 1000000000

/-- `path.Base`. -/
def base (path : Text) : Text :=
  if path = [] then ['.']
  else
    let last := (path.rdropWhile (· = '/')).rtakeWhile (· ≠ '/')
    if last = [] then ['/'] else last

inductive Answer where
  | failed (error : Text)
  | redirect (location : Url)
  /-- Each byte of the body with the time after the headers when it arrives. -/
  | response (r : Response) (body : List (Nat × UInt8))

structure Remote where
  /-- Every answer comes with the time it takes. -/
  lookup : Text → Nat × Except Text (List Bytes)
  exchange : Url → Nat × Answer

def headSize : Nat := 4096

/-- What `io.ReadFull` has got of the first bytes when the time is up. -/
def arrived (time : Nat) (body : List (Nat × UInt8)) : Bytes :=
  ((body.take headSize).takeWhile fun b => decide (b.1 ≤ time)).map Prod.snd

def deadlineExceeded : Text := "context deadline exceeded".toList

/-- The answer to an operation, with `used` the time since the first request. -/
def Remote.answer (remote : Remote) (limit : Nat) : {β : Type} → FetchOp β → Option Nat →
    β × Option Nat
  | _, .lookup host, used => ((remote.lookup host).2, used.map (· + (remote.lookup host).1))
  | _, .exchange u, used =>
    let now := used.getD 0 + (remote.exchange u).1
    if limit < now then (.failed deadlineExceeded, some now)
    else match (remote.exchange u).2 with
      | .failed error => (.failed error, some now)
      | .redirect location => (.redirect location, some now)
      | .response r body => (.response { r with head := arrived (limit - now) body }, some now)

def Remote.play {α : Type} (remote : Remote) (limit : Nat) :
    Procedure FetchOp α → Option Nat → α × Option Nat
  | .ret a, used => (a, used)
  | .call op next, used =>
    remote.play limit (next (remote.answer limit op used).1) (remote.answer limit op used).2

/-- What a procedure returns that is given the time. -/
def Remote.within {α : Type} (remote : Remote) (limit : Nat) (p : Procedure FetchOp α) : α :=
  (remote.play limit p none).1

section Callers
variable (parse : Text → Except Text Url) (lower : Char → Char)

/-- The suggested name and the type that `checkURL` decides on. -/
def checkExt (raw : Text) : Procedure FetchOp (Except Text (Text × Text)) := do
  match ← validate parse raw with
  | .error e => pure (.error e)
  | .ok u =>
    let name := base u.path
    let ext := extension (List.map lower) name
    if ext ≠ [] then pure (.ok (name, ext))
    else do
      match ← resolve parse (List.map lower) raw with
      | .error e => pure (.error e)
      | .ok (final, resolved) =>
        let name := base final.path
        pure (.ok (if '.' :: resolved <:+ name then name else name ++ '.' :: resolved, resolved))

def checkName (allowed : List Text) (name ext : Text) : Except Text Text :=
  if name = [] ∨ name = ['.'] ∨ name = ['/'] then .error "url has no file name".toList
  else if ext = [] then .error "cannot determine file type".toList
  else if ext ∈ allowed then .ok name
  else .error ("file extension .".toList ++ ext ++ " is not allowed".toList)

def checkURL (allowed : List Text) (raw : Text) : Procedure FetchOp (Except Text Text) := do
  match ← checkExt parse lower raw with
  | .error e => pure (.error e)
  | .ok (name, ext) => pure (checkName allowed name ext)

/-- The type that `Download` decides on. -/
def downloadExt (raw : Text) : Procedure FetchOp (Except Text Text) := do
  match ← validate parse raw with
  | .error e => pure (.error e)
  | .ok u => discover parse (List.map lower) raw u

/-- The extension check of `Download`. -/
def typeAllowed (allowed : List Text) (ext : Text) : Bool := ext ≠ [] && decide (ext ∈ allowed)

end Callers

section Remotes
variable {α β : Type} (remote : Remote) (limit : Nat)

theorem play_bind (p : Procedure FetchOp α) (k : α → Procedure FetchOp β) (used : Option Nat) :
    remote.play limit (p >>= k) used =
      remote.play limit (k (remote.play limit p used).1) (remote.play limit p used).2 := by
  induction p generalizing used with
  | ret a => rfl
  | call op next ih =>
    rw [call_bind, Remote.play, Remote.play]
    exact ih _ _

variable (parse : Text → Except Text Url)

/-- The result of `Validate`, which no time limit changes. -/
def Remote.validated (raw : Text) : Except Text Url := remote.within 0 (validate parse raw)

/-- How long `Validate` takes, which asks only for the host of a web address. -/
def Remote.lookupTime (raw : Text) : Nat :=
  match parse (Categories.trim Categories.isSpace raw) with
  | .error _ => 0
  | .ok u =>
    if u.scheme ≠ "http".toList ∧ u.scheme ≠ "https".toList then 0
    else if u.hostname = [] then 0
    else (remote.lookup u.hostname).1

theorem play_validate (raw : Text) (used : Option Nat) :
    remote.play limit (validate parse raw) used =
      (remote.validated parse raw, used.map (· + remote.lookupTime parse raw)) := by
  simp only [Remote.validated, Remote.within, Remote.lookupTime, validate]
  cases parse (Categories.trim Categories.isSpace raw) with
  | error e => exact Prod.ext rfl (congrFun Option.map_id used).symm
  | ok u =>
    dsimp only
    split
    · exact Prod.ext rfl (congrFun Option.map_id used).symm
    · split
      · exact Prod.ext rfl (congrFun Option.map_id used).symm
      · simp only [ask_bind, Remote.play, Remote.answer]
        cases (remote.lookup u.hostname).2 with
        | error e => rfl
        | ok ips =>
          dsimp only
          split
          · rfl
          · rfl

/-- The last response of a chain of redirects, with the time when it arrives. -/
structure Page where
  url : Url
  time : Nat
  response : Response
  body : List (Nat × UInt8)

/-- The last response, however long it takes, with `via` requests before `u`. -/
def Remote.leads : Nat → Nat → Nat → Url → Option Page
  | 0, _, _, _ => none
  | fuel + 1, via, used, u =>
    match (remote.exchange u).2 with
    | .failed _ => none
    | .response r body => some ⟨u, used + (remote.exchange u).1, r, body⟩
    | .redirect location =>
      if (remote.validated parse location.text).isOk = true ∧ via + 1 < maxRedirects then
        Remote.leads fuel (via + 1)
          (used + (remote.exchange u).1 + remote.lookupTime parse location.text) location
      else none

def Remote.page (raw : Text) : Option Page :=
  (remote.validated parse raw).toOption.bind fun u =>
    (parse u.text).toOption.bind (remote.leads parse maxRedirects 0 0)

/-- The page as `Resolve` sees it at the end of its time. -/
def Page.seenBy (p : Page) (limit : Nat) : Option (Url × Response) :=
  if limit < p.time then none
  else some (p.url, { p.response with head := arrived (limit - p.time) p.body })

/-- The type that the page tells in the time, by its path, its content type or its first bytes. -/
def Page.typeBy (p : Page) (low : Text → Text) (limit : Nat) : Option Text :=
  (p.seenBy limit).bind fun seen => ((resolveFrom low seen.1 seen.2).toOption).map Prod.snd

theorem leads_time {fuel via used : Nat} {u : Url} {p : Page}
    (h : remote.leads parse fuel via used u = some p) : used + (remote.exchange u).1 ≤ p.time := by
  induction fuel generalizing via used u with
  | zero => cases h
  | succ fuel ih =>
    rw [Remote.leads] at h
    split at h
    · cases h
    · cases h
      exact le_refl _
    · split at h
      · have := ih h
        omega
      · cases h

theorem play_follow (fuel via : Nat) (used : Option Nat) (u : Url) :
    (remote.play limit (SafeUrl.follow parse fuel via u) used).1.toOption =
      (remote.leads parse fuel via (used.getD 0) u).bind (·.seenBy limit) := by
  induction fuel generalizing via used u with
  | zero => rfl
  | succ fuel ih =>
    rw [SafeUrl.follow, ask_bind, Remote.play, Remote.answer]
    by_cases late : limit < used.getD 0 + (remote.exchange u).1
    · simp only [if_pos late]
      symm
      rw [Option.bind_eq_none_iff.mpr]
      · rfl
      · intro p isPage
        exact if_pos (lt_of_lt_of_le late (leads_time remote parse isPage))
    · simp only [if_neg late]
      rw [Remote.leads]
      cases (remote.exchange u).2 with
      | failed error => rfl
      | response r body =>
        dsimp only [Option.bind_some]
        rw [Page.seenBy, if_neg late]
        rfl
      | redirect location =>
        dsimp only
        rw [play_bind, checkRedirect, play_bind, play_validate]
        cases remote.validated parse location.text with
        | error e => rfl
        | ok v =>
          dsimp only [Option.map_some]
          by_cases more : via + 1 < maxRedirects
          · rw [if_neg (not_le.mpr more), if_pos ⟨rfl, more⟩]
            exact ih (via + 1) _ location
          · rw [if_pos (not_lt.mp more), if_neg fun h => more h.2]
            rfl

variable (lower : Char → Char)

/-- The type that the page tells in the time. -/
def Remote.found (raw : Text) : Option Text :=
  (remote.page parse raw).bind (·.typeBy (List.map lower) limit)

theorem within_resolve (raw : Text) :
    ((remote.within limit (resolve parse (List.map lower) raw)).toOption).map Prod.snd =
      remote.found limit parse lower raw := by
  rw [resolve, Remote.within, play_bind, play_validate, Remote.found, Remote.page]
  cases remote.validated parse raw with
  | error e => rfl
  | ok u =>
    dsimp only [Except.toOption, Option.bind_some]
    rw [play_bind, SafeUrl.get]
    cases parse u.text with
    | error e => rfl
    | ok target =>
      have seen := play_follow remote limit parse maxRedirects 0 none target
      dsimp only [Option.bind_some, Option.map_none, Option.getD_none] at seen ⊢
      rw [show (·.typeBy (List.map lower) limit) = fun p : Page => (p.seenBy limit).bind _ from rfl,
        ← Option.bind_assoc, ← seen]
      cases (remote.play limit (SafeUrl.follow parse maxRedirects 0 target) none).1 with
      | error e => rfl
      | ok r => rfl

theorem within_checkExt (raw : Text) :
    remote.within limit (checkExt parse lower raw) =
      match remote.validated parse raw with
      | .error e => .error e
      | .ok u =>
        if extension (List.map lower) (base u.path) ≠ [] then
          .ok (base u.path, extension (List.map lower) (base u.path))
        else match remote.within limit (resolve parse (List.map lower) raw) with
          | .error e => .error e
          | .ok (final, resolved) =>
            .ok (if '.' :: resolved <:+ base final.path then base final.path
              else base final.path ++ '.' :: resolved, resolved) := by
  rw [checkExt, Remote.within, play_bind, play_validate]
  cases remote.validated parse raw with
  | error e => rfl
  | ok u =>
    dsimp only
    split
    · rfl
    · rw [play_bind, Option.map_none, Remote.within]
      cases (remote.play limit (resolve parse (List.map lower) raw) none).1 with
      | error e => rfl
      | ok r => rfl

theorem within_downloadExt (raw : Text) :
    remote.within limit (downloadExt parse lower raw) =
      match remote.validated parse raw with
      | .error e => .error e
      | .ok u =>
        if extension (List.map lower) u.path ≠ [] then .ok (extension (List.map lower) u.path)
        else match remote.within limit (resolve parse (List.map lower) raw) with
          | .error e => .error e
          | .ok (_, resolved) => .ok resolved := by
  rw [downloadExt, Remote.within, play_bind, play_validate]
  cases remote.validated parse raw with
  | error e => rfl
  | ok u =>
    dsimp only [discover]
    split
    · rfl
    · rw [play_bind, Option.map_none, Remote.within]
      cases (remote.play limit (resolve parse (List.map lower) raw) none).1 with
      | error e => rfl
      | ok r => rfl

/-- What `Resolve` finds is never empty. -/
theorem resolveFrom_ne_nil {low : Text → Text} {final : Url} {r : Response} {u : Url} {ext : Text}
    (h : resolveFrom low final r = .ok (u, ext)) : ext ≠ [] := by
  rw [resolveFrom] at h
  dsimp only at h
  split at h
  · next some =>
    cases h
    exact some
  · split at h
    · next known isKnown =>
      cases h
      have listed : ∀ e ∈ contentTypeExt, e.2.toList ≠ [] := by decide
      obtain ⟨before, after, table, _⟩ := List.lookup_eq_some_iff.mp isKnown
      exact listed (String.ofList (mediaType low r.contentType), known) (by rw [table]; simp)
    · split at h
      · next some =>
        cases h
        exact some
      · cases h

theorem resolved_ne_nil {raw : Text} {u : Url} {ext : Text}
    (h : remote.within limit (resolve parse (List.map lower) raw) = .ok (u, ext)) : ext ≠ [] := by
  rw [resolve, Remote.within, play_bind] at h
  cases validated : (remote.play limit (validate parse raw) none).1 with
  | error e =>
    rw [validated] at h
    cases h
  | ok first =>
    rw [validated] at h
    dsimp only at h
    rw [play_bind] at h
    split at h
    · cases h
    · next final r _ => exact resolveFrom_ne_nil h

end Remotes

section Decisions
variable (remote : Remote) (parse : Text → Except Text Url) (lower : Char → Char) (raw : Text)

def checkLimit : Nat := 10 * second
def downloadLimit : Nat := 15 * second

/-- The extension that the API decides on, if it gets to one. -/
def checked : Option Text :=
  ((remote.within checkLimit (checkExt parse lower raw)).toOption).map Prod.snd

/-- The extension that the worker decides on, if it gets to one. -/
def downloaded : Option Text :=
  (remote.within downloadLimit (downloadExt parse lower raw)).toOption

structure Agrees : Prop where
  extension : checked remote parse lower raw = downloaded remote parse lower raw
  accepted : ∀ allowed, (remote.within checkLimit (checkURL parse lower allowed raw)).isOk =
    (downloaded remote parse lower raw).any (typeAllowed allowed)

/-- When the path ends in a slash after a name with an extension, that is the type that the page
tells in time; when the name has none, the page tells the same type by both times. -/
def SameType : Prop := ∀ u, remote.validated parse raw = .ok u →
  if extension (List.map lower) (base u.path) = [] then
    remote.found checkLimit parse lower raw = remote.found downloadLimit parse lower raw
  else u.path.getLast? = some '/' →
    remote.found downloadLimit parse lower raw = some (extension (List.map lower) (base u.path))

/-- The last element is the same for `path.Ext` unless a slash follows it. -/
theorem extension_base (path : Text) : extension (List.map lower) path =
    if path.getLast? = some '/' then [] else extension (List.map lower) (base path) := by
  induction path using List.reverseRecOn with
  | nil => rfl
  | append_singleton before c =>
    simp only [List.getLast?_concat, Option.some_inj]
    by_cases slash : c = '/'
    · rw [if_pos slash, extension, List.reverse_concat, slash]
      rfl
    · have tail : (before ++ [c]).rtakeWhile (· ≠ '/') ≠ [] := by
        simp [List.rtakeWhile, slash]
      rw [if_neg slash, base, if_neg (by simp)]
      dsimp only
      rw [List.rdropWhile_concat_neg _ _ _ (by simpa using slash), if_neg tail, extension, extension,
        List.rtakeWhile, List.reverse_reverse, List.takeWhile_idem]

theorem checked_eq : checked remote parse lower raw =
    (remote.validated parse raw).toOption.bind fun u =>
      if extension (List.map lower) (base u.path) ≠ [] then
        some (extension (List.map lower) (base u.path))
      else remote.found checkLimit parse lower raw := by
  rw [checked, within_checkExt, ← within_resolve]
  cases remote.validated parse raw with
  | error e => rfl
  | ok u =>
    dsimp only [Except.toOption, Option.bind_some]
    by_cases named : extension (List.map lower) (base u.path) ≠ []
    · rw [if_pos named, if_pos named]
      rfl
    · rw [if_neg named, if_neg named]
      cases remote.within checkLimit (resolve parse (List.map lower) raw) with
      | error e => rfl
      | ok r => rfl

theorem downloaded_eq : downloaded remote parse lower raw =
    (remote.validated parse raw).toOption.bind fun u =>
      if extension (List.map lower) u.path ≠ [] then some (extension (List.map lower) u.path)
      else remote.found downloadLimit parse lower raw := by
  rw [downloaded, within_downloadExt, ← within_resolve]
  cases remote.validated parse raw with
  | error e => rfl
  | ok u =>
    dsimp only [Except.toOption, Option.bind_some]
    by_cases named : extension (List.map lower) u.path ≠ []
    · rw [if_pos named, if_pos named]
    · rw [if_neg named, if_neg named]
      cases remote.within downloadLimit (resolve parse (List.map lower) raw) with
      | error e => rfl
      | ok r => rfl

theorem download_eq (allowed : List Text) (maxSize : Int) :
    download parse (List.map lower) raw allowed maxSize = (do
      match ← downloadExt parse lower raw with
      | .error e => pure (.error e)
      | .ok ext => fetchFile parse raw allowed maxSize ext) := by
  rw [download, downloadExt, bind_assoc]
  congr 1
  funext r
  cases r <;> rfl

/-- A type that is not allowed ends `Download` before the file is asked for. -/
theorem fetchFile_refused {allowed : List Text} {ext : Text} (h : typeAllowed allowed ext = false)
    (maxSize : Int) : ∃ e, fetchFile parse raw allowed maxSize ext = .ret (.error e) := by
  rw [fetchFile]
  split
  · exact ⟨_, rfl⟩
  · split
    · exact ⟨_, rfl⟩
    · next known listed => simp [typeAllowed, known, not_not.mp listed] at h

theorem name_of_extension {name ext : Text} (h : ext ≠ [])
    (named : extension (List.map lower) name = ext) : name ≠ [] ∧ name ≠ ['.'] ∧ name ≠ ['/'] := by
  refine ⟨?_, ?_, ?_⟩
  all_goals
    rintro rfl
    exact h named.symm

theorem name_of_suffix {name ext : Text} (h : ext ≠ []) (ends : '.' :: ext <:+ name) :
    name ≠ [] ∧ name ≠ ['.'] ∧ name ≠ ['/'] := by
  have long : 2 ≤ name.length := by
    have := ends.length_le
    have := List.length_pos_of_ne_nil h
    simp only [List.length_cons] at *
    omega
  refine ⟨?_, ?_, ?_⟩
  all_goals
    rintro rfl
    simp at long

/-- The name that goes with an extension is always one that `checkURL` accepts. -/
theorem checkExt_named {name ext : Text}
    (h : remote.within checkLimit (checkExt parse lower raw) = .ok (name, ext)) :
    ext ≠ [] ∧ name ≠ [] ∧ name ≠ ['.'] ∧ name ≠ ['/'] := by
  rw [within_checkExt] at h
  split at h
  · cases h
  · split at h
    · next named =>
      cases h
      exact ⟨named, name_of_extension lower named rfl⟩
    · split at h
      · cases h
      · next final resolved found =>
        cases h
        have some := resolved_ne_nil remote checkLimit parse lower found
        refine ⟨some, name_of_suffix some ?_⟩
        split
        · next ends => exact ends
        · exact List.suffix_append _ _

theorem accepted_eq (allowed : List Text) :
    (remote.within checkLimit (checkURL parse lower allowed raw)).isOk =
      (checked remote parse lower raw).any (typeAllowed allowed) := by
  have run : remote.within checkLimit (checkURL parse lower allowed raw) =
      match remote.within checkLimit (checkExt parse lower raw) with
      | .error e => .error e
      | .ok (name, ext) => checkName allowed name ext := by
    rw [checkURL, Remote.within, play_bind, Remote.within]
    cases (remote.play checkLimit (checkExt parse lower raw) none).1 with
    | error e => rfl
    | ok r => rfl
  rw [run, checked]
  cases isExt : remote.within checkLimit (checkExt parse lower raw) with
  | error e => rfl
  | ok r =>
    obtain ⟨known, name⟩ := checkExt_named remote parse lower raw isExt
    by_cases listed : r.2 ∈ allowed
    · simp [checkName, name, known, listed, typeAllowed, Except.toOption, Except.isOk, Except.toBool]
    · simp [checkName, name, known, listed, typeAllowed, Except.toOption, Except.isOk, Except.toBool]

theorem checked_eq_downloaded_iff :
    checked remote parse lower raw = downloaded remote parse lower raw ↔
      SameType remote parse lower raw := by
  rw [checked_eq, downloaded_eq, SameType]
  cases remote.validated parse raw with
  | error e => exact ⟨fun _ => nofun, fun _ => rfl⟩
  | ok u =>
    simp only [Except.toOption, Option.bind_some, Except.ok.injEq, forall_eq']
    by_cases named : extension (List.map lower) (base u.path) = []
    · have none : extension (List.map lower) u.path = [] := by
        rw [extension_base, named, ite_self]
      rw [if_pos named, if_neg (not_not.mpr named), if_neg (not_not.mpr none)]
    · rw [if_neg named, if_pos named, extension_base lower u.path]
      by_cases slash : u.path.getLast? = some '/'
      · rw [if_pos slash, if_neg (not_not.mpr rfl)]
        exact ⟨fun h _ => h.symm, fun h => (h slash).symm⟩
      · rw [if_neg slash, if_pos named]
        exact ⟨fun _ h => absurd h slash, fun _ => rfl⟩

theorem types_agree_iff : Agrees remote parse lower raw ↔ SameType remote parse lower raw := by
  rw [← checked_eq_downloaded_iff]
  refine ⟨Agrees.extension, fun same => ⟨same, fun allowed => ?_⟩⟩
  rw [accepted_eq, same]

end Decisions

def folder : Url :=
  ⟨"https".toList, "example.com".toList, "/a.mp4/".toList, "https://example.com/a.mp4/".toList⟩

/-- A server that shows a page for every address. -/
def pages : Remote where
  lookup _ := (0, .ok [[93, 184, 216, 34]])
  exchange _ := (0, .response ⟨200, "200 OK".toList, "text/html".toList, -1, []⟩ [])

theorem folder_refused :
    (pages.within checkLimit (checkURL (fun _ => .ok folder) Char.toLower ["mp4".toList]
      folder.text)).isOk = true ∧
    downloaded pages (fun _ => .ok folder) Char.toLower folder.text = none ∧
    ¬ Agrees pages (fun _ => .ok folder) Char.toLower folder.text := by
  have accepted : (pages.within checkLimit (checkURL (fun _ => .ok folder) Char.toLower
      ["mp4".toList] folder.text)).isOk = true := by decide +kernel
  have refused : downloaded pages (fun _ => .ok folder) Char.toLower folder.text = none := by
    decide +kernel
  refine ⟨accepted, refused, fun agrees => ?_⟩
  have := agrees.accepted ["mp4".toList]
  rw [accepted, refused] at this
  cases this

end Vidsilo.Fetch.FileTypes
