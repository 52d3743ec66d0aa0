import Mqrestt.AbortSound
import Mqrestt.Bridge
import Mqrestt.IsolationSound
import Mqrestt.JoinSound
import Mqrestt.NumbersSound
import Mqrestt.ObserveSound
import Mqrestt.PipelineSound
import Mqrestt.PollSound
import Mqrestt.QosSound
import Mqrestt.ShutdownSound
import Mqrestt.SilenceSound
import Mqrestt.UtilsSound
