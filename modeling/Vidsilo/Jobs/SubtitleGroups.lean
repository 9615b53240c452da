import Vidsilo.Jobs.MasterText

/-!
# The subtitle group of the master playlist

Source: internal/media/media.go:284-314 (`BuildMasterPlaylist`), internal/jobs/jobs.go:694-729
(`buildMaster`). The group is defined by a loop over the subtitles, which all are defaults of it,
and named by every rendition, whether there are subtitles or not.
-/
namespace Vidsilo.Jobs.SubtitleGroups
open Library Library.HlsMaster Library.SlashPath MasterText
open Master (Rendition SubtitleRendition Playlist buildMasterPlaylist)

theorem named_written (r : Rendition) :
    (writtenRendition r).group "SUBTITLES" = some "subs".toList := by
  rw [Stream.group, writtenRendition]
  simp (disch := decide) only [valueOf_self, valueOf_other, Option.bind_some, Value.string]

theorem default_written (sub : SubtitleRendition) :
    inGroup "SUBTITLES" "subs".toList (writtenSubtitle sub) = true ∧
      isDefault (writtenSubtitle sub) = true := by
  rw [inGroup, isDefault, writtenSubtitle]
  simp (disch := decide) only [valueOf_self, valueOf_other, decide_true, Bool.and_self, and_self]

theorem consistent_written_iff (p : Playlist) :
    (written p).Consistent "SUBTITLES" ↔
      p.subtitles.length ≤ 1 ∧ (p.renditions ≠ [] → p.subtitles ≠ []) := by
  have named : ∀ s ∈ (written p).streams, s.group "SUBTITLES" = some "subs".toList := by
    intro s mem
    obtain ⟨r, _, rfl⟩ := List.mem_map.mp mem
    exact named_written r
  have defaults : ∀ as ∈ (written p).media,
      inGroup "SUBTITLES" "subs".toList as = true ∧ isDefault as = true := by
    intro as mem
    obtain ⟨sub, _, rfl⟩ := List.mem_map.mp mem
    exact default_written sub
  rw [Master.consistent_iff named defaults]
  simp only [written, List.length_map, ne_eq, List.map_eq_nil_iff]

/-- A player reads the text, and finds every group that is named and one default of it. -/
def ReadConsistent (t : Text) : Prop := ∃ m, parse t = some m ∧ m.Consistent "SUBTITLES"

/-- One subtitle at most, and one where there are renditions. -/
def SubtitleFits (p : Playlist) : Prop :=
  p.subtitles.length ≤ 1 ∧ (p.renditions ≠ [] → p.subtitles ≠ [])

theorem readConsistent_iff {p : Playlist} (h : Legible p) :
    ReadConsistent (buildMasterPlaylist p) ↔ SubtitleFits p := by
  rw [SubtitleFits, ← consistent_written_iff p]
  constructor
  · rintro ⟨m, read, consistent⟩
    rw [parse_build h] at read
    exact Option.some.inj read ▸ consistent
  · intro consistent
    exact ⟨written p, parse_build h, consistent⟩

/-- The text is read as the tags that are written, and these are consistent, exactly where the
texts stay in their places and the subtitle fits; where the texts do, the subtitle decides. -/
theorem groups_iff (p : Playlist) :
    (parse (buildMasterPlaylist p) = some (written p) ∧ ReadConsistent (buildMasterPlaylist p) ↔
      Legible p ∧ SubtitleFits p) ∧
    (Legible p → (ReadConsistent (buildMasterPlaylist p) ↔ SubtitleFits p)) := by
  refine ⟨?_, readConsistent_iff⟩
  rw [parse_build_iff]
  constructor
  · rintro ⟨legible, consistent⟩
    exact ⟨legible, (readConsistent_iff legible).mp consistent⟩
  · rintro ⟨legible, fits⟩
    exact ⟨legible, (readConsistent_iff legible).mpr fits⟩

def withoutSubtitles : Playlist :=
  ⟨[⟨"720p".toList, 720, 2500, "/media/entries/1/720p/index.m3u8".toList⟩], []⟩

def twoSubtitles : Playlist :=
  ⟨[⟨"720p".toList, 720, 2500, "/media/entries/1/720p/index.m3u8".toList⟩],
    [⟨"en".toList, "English".toList, "/media/entries/1/subs/en.vtt".toList⟩,
      ⟨"de".toList, "Deutsch".toList, "/media/entries/1/subs/de.vtt".toList⟩]⟩

/-- One subtitle, whose language ends its attribute and begins another tag of the group. -/
def secondTag : Playlist :=
  ⟨[⟨"720p".toList, 720, 2500, "/media/entries/1/720p/index.m3u8".toList⟩],
    [⟨("en\",URI=\"x\"\n" ++ "#EXT-X-MEDIA:TYPE=SUBTITLES,GROUP-ID=\"subs\",NAME=\"y\"," ++
        "DEFAULT=YES,LANGUAGE=\"en").toList, "English".toList,
      "/media/entries/1/subs/en.vtt".toList⟩]⟩

theorem secondTag_defaults : (parse (buildMasterPlaylist secondTag)).map (fun m =>
    m.media.countP fun as => inGroup "SUBTITLES" "subs".toList as && isDefault as) = some 2 := by
  decide +kernel

/-- A video without subtitles names a group that is nowhere, two subtitles are both the default,
and so are the two tags of one subtitle. -/
theorem group_undefined_or_two_defaults :
    ¬ ReadConsistent (buildMasterPlaylist withoutSubtitles) ∧
    ¬ ReadConsistent (buildMasterPlaylist twoSubtitles) ∧
    (SubtitleFits secondTag ∧ ¬ ReadConsistent (buildMasterPlaylist secondTag)) := by
  refine ⟨?_, ?_, ⟨by decide, by decide⟩, ?_⟩
  · intro consistent
    have fits := (readConsistent_iff ⟨by decide, by decide +kernel⟩).mp consistent
    exact fits.2 (by decide) rfl
  · intro consistent
    have fits := (readConsistent_iff ⟨by decide +kernel, by decide +kernel⟩).mp consistent
    exact absurd fits.1 (by decide)
  · rintro ⟨m, read, consistent⟩
    have two := secondTag_defaults
    rw [read, Option.map_some, Option.some.injEq] at two
    have one := consistent.oneDefault "subs".toList
    omega

end Vidsilo.Jobs.SubtitleGroups
