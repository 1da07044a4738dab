import Confide.AdminGroup
import Confide.AuditTrail
import Confide.AuthConfig
import Confide.Authorship
import Confide.Backoff
import Confide.DirectoryCaches
import Confide.FailedCalls
import Confide.Framed
import Confide.GetCommand
import Confide.Guessing
import Confide.LdapFilter
import Confide.LogSuffix
import Confide.Persistence
import Confide.Privacy
import Confide.Retention
import Confide.RetentionConfig
import Confide.SourceBody
import Confide.Streaming
import Confide.TechLog
import Confide.Threads
import Confide.TimeTexts
import Confide.TokenCache
