import StepSequencer.Document.Yaml.Reading
import StepSequencer.Grid.Rebuild
import StepSequencer.Pattern.Placing
import StepSequencer.Pattern.Spelling
import StepSequencer.Playback.Run
import StepSequencer.Proofs.Agenda
import StepSequencer.Proofs.Alignment
import StepSequencer.Proofs.Announcements
import StepSequencer.Proofs.Beats
import StepSequencer.Proofs.Boundary
import StepSequencer.Proofs.BrokenFrame
import StepSequencer.Proofs.Bursts
import StepSequencer.Proofs.Count
import StepSequencer.Proofs.Cut
import StepSequencer.Proofs.Edits
import StepSequencer.Proofs.FrameChain
import StepSequencer.Proofs.Frames
import StepSequencer.Proofs.GridText
import StepSequencer.Proofs.Heard
import StepSequencer.Proofs.Hits
import StepSequencer.Proofs.LayerText
import StepSequencer.Proofs.Leaves
import StepSequencer.Proofs.Legible
import StepSequencer.Proofs.Nesting
import StepSequencer.Proofs.Onsets
import StepSequencer.Proofs.Places
import StepSequencer.Proofs.Quiet
import StepSequencer.Proofs.Reading
import StepSequencer.Proofs.Regeneration
import StepSequencer.Proofs.Reopening
import StepSequencer.Proofs.Restart
import StepSequencer.Proofs.RowText
import StepSequencer.Proofs.Segments
import StepSequencer.Proofs.SoundName
import StepSequencer.Proofs.Span
import StepSequencer.Proofs.Spelling
import StepSequencer.Proofs.Subdivision
import StepSequencer.Proofs.Unbroken
import StepSequencer.Session
import StepSequencer.Session.Run
import StepSequencer.Settings.Load
import StepSequencer.Proofs.Stillness
import StepSequencer.Proofs.ColumnChanges
import StepSequencer.Proofs.Muting
import StepSequencer.Proofs.RespacedParts
import StepSequencer.Proofs.RespacedLayers
import StepSequencer.Proofs.Splitting
import StepSequencer.Proofs.NormalForm
import StepSequencer.Proofs.Resolution
import StepSequencer.Proofs.Shorthand
import StepSequencer.Proofs.Naming
import StepSequencer.Proofs.Landing
import StepSequencer.Proofs.Toggles
import StepSequencer.Proofs.Resizing
import StepSequencer.Proofs.Draws
import StepSequencer.Proofs.LargeIntegers
import StepSequencer.Proofs.KeyOrder
import StepSequencer.Proofs.Loading
import StepSequencer.Proofs.KnownKeys
